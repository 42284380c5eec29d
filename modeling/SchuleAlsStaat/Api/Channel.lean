import SchuleAlsStaat.Api.Dispatch
import SchuleAlsStaat.Js.Buffer
import SchuleAlsStaat.Js.Stringify
import SchuleAlsStaat.Lib.Base64

/-!
# The encrypted channel

`aes_gibberish.js`, `encrypt_query` of `actions/index.js` and the client of
`api_autotest.js`.  A message is a JSON text in a container of OpenSSL, which is
"Salted__", a salt and a ciphertext in Base64.  Its key is derived from a
passphrase, and the passphrase of a request is encrypted with the public key of
the server.  MD5, the cipher and RSA are parameters with the laws that the code
relies on.
-/

namespace SchuleAlsStaat

open Js (Exn Json JsVal JS)

/-! ## aes_gibberish.js -/

/-- The functions of the module `crypto`. -/
structure Crypto where
  /-- `createHash("md5")`.  The characters of a string are its bytes. -/
  digest : String → List UInt8
  /-- `createCipheriv("aes-256-cbc", key, iv)`. -/
  cipher (key iv : String) : List UInt8 → Except Exn (List UInt8)
  /-- `createDecipheriv("aes-256-cbc", key, iv)`. -/
  decipher (key iv : String) : List UInt8 → Except Exn (List UInt8)
  digest_length : ∀ s, (digest s).length = 16
  /-- A key has 32 bytes and an initialization vector has 16. -/
  decipher_cipher : ∀ {key iv : String}, key.length = 32 → iv.length = 16 → ∀ data,
    ∃ ct, cipher key iv data = .ok ct ∧ decipher key iv ct = .ok data

/-- The values of `Math.floor(Math.random() * 94)` for a string of length `n`. -/
abbrev Draws (n : ℕ) := { l : List (Fin 94) // l.length = n }

def randomString {n : ℕ} (draws : Draws n) : String :=
  String.ofList (draws.val.map fun d : Fin 94 => Char.ofNat (32 + d.val))

variable (C : Crypto)

def md5 (src : String) : String := Js.binary (C.digest src)

structure Mangled where
  key : String
  iv : String

/-- The hashes of so many rounds, one after another. -/
def mangleRounds (salted_password : String) : ℕ → String → String
  | 0, _ => ""
  | rounds + 1, previous =>
      let hash := md5 C (previous ++ salted_password)
      hash ++ mangleRounds salted_password rounds hash

/-- `s.substring(a, b)` of a binary string. -/
def substring (s : String) (a b : ℕ) : String := String.ofList ((s.toList.take b).drop a)

def AES_mangle (salted_password : String) : Mangled :=
  let result := mangleRounds C salted_password 3 ""
  { key := substring result 0 32
    iv := substring result 32 48 }

def AES_encrypt (salt : Draws 8) (data password : String) : Except Exn String := do
  let salt := randomString salt
  let mangled := AES_mangle C (password ++ salt)
  let ct ← C.cipher mangled.key mangled.iv (Js.utf8 data)
  return String.ofList (Base64.encode (Js.utf8 ("Salted__" ++ salt) ++ ct))

def AES_decrypt (data password : String) : Except Exn String := do
  let buf := Base64.decode data.toList
  let salt := Js.binary ((buf.take 16).drop 8)
  let ct := Js.binary (buf.drop 16)
  let mangled := AES_mangle C (password ++ salt)
  let content ← C.decipher mangled.key mangled.iv (Js.ofBinary ct)
  return Js.utf8Text content

/-! ## Messages -/

/-- `encrypt_query`.  The encryption of `undefined` throws. -/
def encrypt_query (salt : Draws 8) (query_plain : JsVal) (aes_key : String) : Except Exn String :=
  match query_plain with
  | some v => AES_encrypt C salt v.stringify aes_key
  | none => .error .typeError

/-- `decrypt_answer` of the client.  An exception is logged. -/
def decrypt_answer (passphrase answer : String) : JsVal :=
  match (do Json.parse (← AES_decrypt C answer passphrase)) with
  | .ok v => some v
  | .error _ => none

/-- The keys of the server with the public key of the clients, which encrypts
strings of up to `capacity` bytes. -/
structure Channel where
  crypto : Crypto
  keys : Keys
  encrypt_passphrase : String → String
  capacity : ℕ
  decrypt_str : ∀ data key, keys.decrypt (some (.str data)) key = AES_decrypt crypto data key
  decrypt_passphrase : ∀ s, (Js.utf8 s).length ≤ capacity →
    keys.decrypt_aes_key (some (.str (encrypt_passphrase s))) = .ok s
  capacity_le : 32 ≤ capacity

/-- The query of `action`, or of `action_cert` with the text of a certificate.
A payload that is `undefined` is left out. -/
def actionQuery (payload : JsVal) (cert : Option String) : Json :=
  .obj ((payload.map fun v => ("payload", v)).toList ++ (cert.map fun s => ("cert", .str s)).toList)

/-- The body that `send_query` posts, with its passphrase. -/
def send_query (ch : Channel) (draws : Draws 32) (salt : Draws 8) (query : Json) :
    Except Exn (String × String) := do
  let passphrase := randomString draws
  let query_encrypted ← encrypt_query ch.crypto salt (some query) passphrase
  return (passphrase, Json.stringify (.obj [
    ("passphrase", .str (ch.encrypt_passphrase passphrase)),
    ("encrypted", .str query_encrypted)]))

/-! ## The container -/

section Container

variable {C}

theorem length_md5 (src : String) : (md5 C src).length = 16 := by
  rw [md5, Js.length_binary, C.digest_length]

theorem length_mangleRounds (salted_password : String) (rounds : ℕ) (previous : String) :
    (mangleRounds C salted_password rounds previous).length = 16 * rounds := by
  induction rounds generalizing previous with
  | zero => rfl
  | succ rounds ih =>
      rw [mangleRounds, String.length_append, length_md5, ih]
      omega

theorem length_substring {s : String} {a b : ℕ} (h : b ≤ s.length) :
    (substring s a b).length = b - a := by
  rw [substring, String.length_ofList, List.length_drop, List.length_take, String.length_toList]
  omega

/-- The derived key and vector have the lengths that the cipher needs. -/
theorem length_AES_mangle (salted_password : String) :
    (AES_mangle C salted_password).key.length = 32 ∧
      (AES_mangle C salted_password).iv.length = 16 := by
  have hlen := length_mangleRounds (C := C) salted_password 3 ""
  exact ⟨length_substring (by omega), length_substring (by omega)⟩

theorem randomString_ascii {n : ℕ} (draws : Draws n) :
    (randomString draws).length = n ∧ ∀ c ∈ (randomString draws).toList, c.toNat < 128 := by
  constructor
  · rw [randomString, String.length_ofList, List.length_map, draws.property]
  · intro c hc
    rw [randomString, String.toList_ofList, List.mem_map] at hc
    obtain ⟨d, -, rfl⟩ := hc
    have all : ∀ d : Fin 94, (Char.ofNat (32 + d)).toNat < 128 := by decide
    exact all d

/-- What stands in a container in front of the ciphertext. -/
theorem salted_bytes (salt : Draws 8) (ct : List UInt8) :
    let buf := Js.utf8 ("Salted__" ++ randomString salt) ++ ct
    Js.binary ((buf.take 16).drop 8) = randomString salt ∧ buf.drop 16 = ct := by
  obtain ⟨hlen, hascii⟩ := randomString_ascii salt
  obtain ⟨hbinary, hbytes⟩ := Js.binary_utf8 hascii
  have hsplit : Js.utf8 ("Salted__" ++ randomString salt) =
      Js.utf8 "Salted__" ++ Js.utf8 (randomString salt) := by
    rw [Js.utf8, String.toList_append, List.flatMap_append]
    rfl
  have hmagic : (Js.utf8 "Salted__").length = 8 := by decide
  rw [hlen] at hbytes
  have hhead : (Js.utf8 ("Salted__" ++ randomString salt)).length = 16 := by
    rw [hsplit, List.length_append, hmagic, hbytes]
  constructor
  · rw [List.take_left' hhead, hsplit, List.drop_left' hmagic]
    exact hbinary
  · exact List.drop_left' hhead

/-- A container is decrypted from every text with its bytes. -/
theorem exists_container (salt : Draws 8) (data password : String) :
    ∃ bs, AES_encrypt C salt data password = .ok (String.ofList (Base64.encode bs)) ∧
      ∀ text : String, Base64.decode text.toList = bs → AES_decrypt C text password = .ok data := by
  obtain ⟨hkey, hiv⟩ := length_AES_mangle (C := C) (password ++ randomString salt)
  obtain ⟨ct, hct, hplain⟩ := C.decipher_cipher hkey hiv (Js.utf8 data)
  refine ⟨Js.utf8 ("Salted__" ++ randomString salt) ++ ct, ?_, fun text htext => ?_⟩
  · rw [AES_encrypt, hct]
    rfl
  · obtain ⟨hsalt, hrest⟩ := salted_bytes salt ct
    rw [AES_decrypt, htext, hsalt, hrest, Js.ofBinary_binary, hplain, Js.except_ok_bind,
      Js.utf8Text_utf8]
    rfl

/-- Decryption gives back what was encrypted with the same password, also when
the container was broken into lines or padded with other characters on its way. -/
theorem AES_decrypt_encrypt (salt : Draws 8) (data password : String) :
    ∃ container, AES_encrypt C salt data password = .ok container ∧
      ∀ text : String, (text.toList.filter fun c => (Base64.value? c).isSome) =
        (container.toList.filter fun c => (Base64.value? c).isSome) →
          AES_decrypt C text password = .ok data := by
  obtain ⟨bs, henc, hdec⟩ := exists_container (C := C) salt data password
  refine ⟨_, henc, fun text htext => hdec text ?_⟩
  rw [Base64.decode_eq_of_filter htext, String.toList_ofList, Base64.decode_encode]

theorem exists_encrypt_query (salt : Draws 8) (v : Json) (key : String) :
    ∃ c, encrypt_query C salt (some v) key = .ok c ∧ AES_decrypt C c key = .ok v.stringify := by
  obtain ⟨bs, henc, hdec⟩ := exists_container (C := C) salt v.stringify key
  refine ⟨_, henc, hdec _ ?_⟩
  rw [String.toList_ofList, Base64.decode_encode]

end Container

/-! ## A request and its answers -/

section Session

variable (ch : Channel) (draws : Draws 32) (salt : Draws 8)

/-- The server gets the passphrase and the query of the client. -/
theorem exists_send_query (query : Json) : ∃ post encrypted,
    send_query ch draws salt query = .ok (randomString draws, post) ∧
      decodePost ch.keys post = .ok (some (.str encrypted), randomString draws) ∧
      decodeQuery ch.keys (some (.str encrypted)) (randomString draws) = .ok query.reread := by
  obtain ⟨c, henc, hdec⟩ := exists_encrypt_query (C := ch.crypto) salt query (randomString draws)
  have hsend : send_query ch draws salt query = .ok (randomString draws, Json.stringify (.obj [
      ("passphrase", .str (ch.encrypt_passphrase (randomString draws))),
      ("encrypted", .str c)])) := by
    rw [send_query, henc]
    rfl
  obtain ⟨hlen, hascii⟩ := randomString_ascii draws
  have hpass := ch.decrypt_passphrase (randomString draws) (by
    rw [(Js.binary_utf8 hascii).2, hlen]
    exact ch.capacity_le)
  refine ⟨_, c, hsend, ?_, ?_⟩
  · rw [decodePost, Js.parse_stringify, Js.except_ok_bind]
    have henc : (Json.obj [("passphrase", .str (ch.encrypt_passphrase (randomString draws))),
        ("encrypted", .str c)]).reread.prop "encrypted" = .ok (some (.str c)) := rfl
    have hpp : (Json.obj [("passphrase", .str (ch.encrypt_passphrase (randomString draws))),
        ("encrypted", .str c)]).reread.prop "passphrase" =
          .ok (some (.str (ch.encrypt_passphrase (randomString draws)))) := rfl
    rw [henc, Js.except_ok_bind, hpp, Js.except_ok_bind, hpass]
    rfl
  · rw [decodeQuery, ch.decrypt_str, hdec, Js.except_ok_bind, Js.parse_stringify]

/-- What the server reads from the query of a client. -/
theorem prop_actionQuery (payload : JsVal) (cert : Option String) :
    (actionQuery payload cert).reread.prop "cert" = .ok (cert.map Json.str) ∧
      (actionQuery payload cert).reread.prop "payload" = .ok (payload.map Json.reread) := by
  cases payload <;> cases cert <;> exact ⟨rfl, rfl⟩

/-- The server runs the action that a client names on the payload and the
certificate that the client has, and the client decrypts each answer to the value
that was answered.  On its way a value changes at most in how its numbers are
spelled. -/
theorem request_and_answers_arrive (name : String) (payload : JsVal) (cert : Option String) :
    ∃ post encrypted,
      send_query ch draws salt (actionQuery payload cert) = .ok (randomString draws, post) ∧
      decodePost ch.keys post = .ok (encrypted, randomString draws) ∧
      payloadOf ch.keys post = .ok (payload.map Json.reread) ∧
      (∀ E env client, prepare_action E ch.keys env client name post = match actions name with
        | none => JS.act (.answer client (.text "error: invalid action"))
        | some r => check E ch.keys r.cert (cert.map Json.str)
            (runAction E env client name (some (actionQuery payload cert).reread) r)
            (answer client (.text "error: incorrect certificate"))) ∧
      (∀ salt v, ∃ res, encrypt_query ch.crypto salt (some v) (randomString draws) = .ok res ∧
        decrypt_answer ch.crypto (randomString draws) res = some v.reread) ∧
      ∀ v : Json, Json.Same v v.reread := by
  obtain ⟨post, encrypted, hsend, hpost, hquery⟩ :=
    exists_send_query ch draws salt (actionQuery payload cert)
  obtain ⟨hcert, hpayload⟩ := prop_actionQuery payload cert
  refine ⟨post, some (.str encrypted), hsend, hpost, ?_, fun E env client => ?_,
    fun salt' v => ?_, Js.same_reread⟩
  · rw [payloadOf, queryOf_eq hpost, hquery, Js.except_ok_bind]
    exact hpayload
  · cases hr : actions name with
    | none => rw [prepare_action, hr]
    | some r =>
        rw [prepare_action_decoded E env client hr hpost hquery, hcert, JS.lift_ok_bind]
  · obtain ⟨c, henc, hdec⟩ := exists_encrypt_query (C := ch.crypto) salt' v (randomString draws)
    refine ⟨c, henc, ?_⟩
    rw [decrypt_answer, hdec, Js.except_ok_bind, Js.parse_stringify]

end Session

section Sample

/-- Some values of MD5 and of the cipher: the hashes of the three rounds of a password, and
the ciphertexts of some data under the key and the vector that they make. -/
structure KnownAnswers where
  salted_password : String
  first : List UInt8
  second : List UInt8
  third : List UInt8
  ciphertexts : List (List UInt8 × List UInt8)
  lengths : first.length = 16 ∧ second.length = 16 ∧ third.length = 16
  lawful : ∀ p ∈ ciphertexts, p.2.head? ≠ some 0 ∧ ∀ q ∈ ciphertexts, q.2 = p.2 → q.1 = p.1

namespace KnownAnswers

variable (A : KnownAnswers)

def digest (s : String) : List UInt8 :=
  if s = A.salted_password then A.first
  else if s = Js.binary A.first ++ A.salted_password then A.second
  else if s = Js.binary A.second ++ A.salted_password then A.third
  else List.replicate 16 0

/-- The known ciphertexts under a key and a vector. -/
def under (key iv : String) : List (List UInt8 × List UInt8) :=
  if key = Js.binary (A.first ++ A.second) ∧ iv = Js.binary A.third then A.ciphertexts else []

/-- Other data only gets a zero in front. -/
def cipher (key iv : String) (data : List UInt8) : List UInt8 :=
  (((A.under key iv).find? (·.1 = data)).map (·.2)).getD (0 :: data)

def decipher (key iv : String) (ct : List UInt8) : List UInt8 :=
  (((A.under key iv).find? (·.2 = ct)).map (·.1)).getD (ct.drop 1)

variable {A}

theorem length_digest (s : String) : (A.digest s).length = 16 := by
  obtain ⟨hfirst, hsecond, hthird⟩ := A.lengths
  unfold digest
  split_ifs
  · exact hfirst
  · exact hsecond
  · exact hthird
  · rfl

theorem mem_under {key iv : String} {p : List UInt8 × List UInt8} (h : p ∈ A.under key iv) :
    p ∈ A.ciphertexts := by
  rw [under] at h
  split_ifs at h
  · exact h
  · cases h

theorem decipher_cipher (key iv : String) (data : List UInt8) :
    A.decipher key iv (A.cipher key iv data) = data := by
  rw [cipher]
  cases hp : (A.under key iv).find? (·.1 = data) with
  | none =>
      have hother : (A.under key iv).find? (·.2 = 0 :: data) = none := by
        refine List.find?_eq_none.mpr fun q hq heq => ?_
        rw [decide_eq_true_eq] at heq
        exact (A.lawful q (mem_under hq)).1 (by rw [heq]; rfl)
      rw [Option.map_none, Option.getD_none, decipher, hother]
      rfl
  | some p =>
      have hmem := List.mem_of_find?_eq_some hp
      have hdata : p.1 = data := by simpa using List.find?_some hp
      rw [Option.map_some, Option.getD_some, decipher]
      cases hq : (A.under key iv).find? (·.2 = p.2) with
      | none => exact absurd (decide_eq_true rfl) (List.find?_eq_none.mp hq p hmem)
      | some q =>
          have hsame : q.2 = p.2 := by simpa using List.find?_some hq
          have hq' := mem_under (List.mem_of_find?_eq_some hq)
          exact ((A.lawful p (mem_under hmem)).2 q hq' hsame).trans hdata

end KnownAnswers

/-- MD5 and the cipher with the known answers. -/
def Crypto.known (A : KnownAnswers) : Crypto where
  digest := A.digest
  cipher key iv data :=
    if key.length = 32 ∧ iv.length = 16 then .ok (A.cipher key iv data) else .error .typeError
  decipher key iv ct :=
    if key.length = 32 ∧ iv.length = 16 then .ok (A.decipher key iv ct) else .error .typeError
  digest_length := KnownAnswers.length_digest
  decipher_cipher hkey hiv data := by
    refine ⟨_, if_pos ⟨hkey, hiv⟩, ?_⟩
    rw [if_pos ⟨hkey, hiv⟩, KnownAnswers.decipher_cipher]

/-- The password "password" with a salt of blanks. -/
def passwordAnswers : KnownAnswers where
  salted_password := "password        "
  first := [0x43, 0xd9, 0x83, 0xf1, 0x03, 0x7d, 0xd5, 0xd4, 0x28, 0xe6, 0xb8, 0x94, 0x23, 0xfe,
      0x61, 0x9a]
  second := [0xcc, 0xe0, 0xc3, 0xfa, 0x5e, 0x81, 0x92, 0xc1, 0xc5, 0xcf, 0x0a, 0x42, 0xe5, 0x09,
      0x2d, 0xdb]
  third := [0x70, 0x81, 0xdf, 0x72, 0x2c, 0x34, 0x14, 0x4f, 0xeb, 0xe3, 0x64, 0x2f, 0xd9, 0xed,
      0xd9, 0x34]
  ciphertexts := [(Js.utf8 "data", [0x41, 0xc9, 0xfc, 0x28, 0x64, 0xdf, 0x62, 0xbe, 0xea, 0x0e,
    0x6e, 0x64, 0xa3, 0x36, 0x80, 0x0e])]
  lengths := by decide +kernel
  lawful := by decide +kernel

/-- The container of "data" after a line break. -/
theorem AES_decrypt_encrypt_line :
    AES_encrypt (.known passwordAnswers) ⟨List.replicate 8 0, rfl⟩ "data" "password" =
        .ok "U2FsdGVkX18gICAgICAgIEHJ/Chk32K+6g5uZKM2gA4=" ∧
      AES_decrypt (.known passwordAnswers)
        "\nU2FsdGVkX18gICAgICAgIEHJ/Chk32K+6g5uZKM2gA4=" "password" = .ok "data" := by
  have hknown : AES_encrypt (.known passwordAnswers) ⟨List.replicate 8 0, rfl⟩ "data" "password" =
      .ok "U2FsdGVkX18gICAgICAgIEHJ/Chk32K+6g5uZKM2gA4=" := by decide +kernel
  obtain ⟨container, henc, hdec⟩ := AES_decrypt_encrypt (C := .known passwordAnswers)
    ⟨List.replicate 8 0, rfl⟩ "data" "password"
  cases hknown.symm.trans henc
  exact ⟨hknown, hdec _ (by decide +kernel)⟩

/-- A channel with known answers on which passphrases are not encrypted. -/
def Channel.known (A : KnownAnswers) : Channel where
  crypto := .known A
  keys := {
    decrypt_aes_key := fun v => match v with
      | some (.str s) => .ok s
      | _ => .error (.error "decoding error")
    decrypt := fun v key => match v with
      | some (.str data) => AES_decrypt (.known A) data key
      | _ => .error .typeError
    readFile := fun fn => .ok ("sha256:" ++ fn ++ "\n") }
  encrypt_passphrase s := s
  capacity := 32
  decrypt_str _ _ := rfl
  decrypt_passphrase _ _ := rfl
  capacity_le := le_rfl

end Sample

end SchuleAlsStaat
