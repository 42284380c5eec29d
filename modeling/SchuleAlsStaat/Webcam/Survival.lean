import SchuleAlsStaat.Api.Dispatch
import SchuleAlsStaat.Webcam.Images

/-!
# Which requests the webcam server survives

The handler of a request and its callbacks run outside of any `try`, so an exception
ends the server.  The name in the URL is decoded before the request is dispatched.
An upload is parsed when its body is complete, and the certificate of a download is
then compared with the hash file.  `Survivable` says for which requests no step
throws.
-/

namespace SchuleAlsStaat.Webcam

open Js (Exn Json JsVal JS decodeURIComponent Encodes)

/-- The file system.  A call may throw at once, for a path that Node refuses.
Otherwise its outcome is passed to the callback. -/
structure Files where
  /-- The outcome is an error, or nothing. -/
  writeFile : List (List Char) → String → Except Exn (Option String)
  /-- The outcome is an error, or the content in base64. -/
  readFile : List (List Char) → Except Exn (Except String String)

/-- `pic.replace(/^data:image\/png;base64,/, "")`. -/
def withoutHeader (pic : String) : String :=
  let header := "data:image/png;base64,".toList
  if header.isPrefixOf pic.toList then String.ofList (pic.toList.drop header.length) else pic

/-- Only strings have the method `replace`. -/
def pngOf : JsVal → Except Exn String
  | some (.str pic) => .ok (withoutHeader pic)
  | _ => .error .typeError

/-- `res.end(text)`. -/
def respond (client : Client) (text : String) : Code := JS.act (.answer client (.text text))

/-! ## The handlers -/

section Handlers

variable (E : Ext) (K : Keys) (F : Files) (__dirname : List Char) (client : Client)

/-- `upload_image`, once the body is complete. -/
def upload_image (imgdata : String) : Code := do
  let img ← JS.lift (Json.parse imgdata)
  let name ← JS.lift (img.prop "name")
  let fn := imagePath __dirname (← JS.str name).toList
  let png ← JS.lift (pngOf (← JS.lift (img.prop "pic")))
  match ← JS.lift (F.writeFile fn png) with
  | some err => respond client ("error: fs.writeFile: " ++ err)
  | none => respond client "ok"

/-- The callback that `get_image` passes to `check`. -/
def sendImage (imgname : List Char) : Code := do
  match ← JS.lift (F.readFile (imagePath __dirname imgname)) with
  | .error _ => respond client ""
  | .ok data => respond client data

/-- `get_image`, once the body is complete.  There is no callback for a false
certificate. -/
def get_image (imgname : List Char) (clientCert : String) : Code :=
  check E K (some ["webcam_hash"]) (some (.str clientCert))
    (sendImage F __dirname client imgname) (pure ())

/-- The handler of a request. -/
def serve (url : List Char) (post : String) : Code := do
  let imgname ← JS.lift (decodeURIComponent (encodedName url))
  if actionOf url = "upload".toList then upload_image F __dirname client post
  else if actionOf url = "get".toList then get_image E K F __dirname client imgname post
  else respond client ""

end Handlers

/-! ## The file of a request -/

section File

variable {E : Ext} {K : Keys} {F F' : Files} {__dirname : List Char} {client : Client}

/-- An upload writes at most the file of its body. -/
theorem upload_image_congr {imgdata : String}
    (h : ∀ path, uploadPath __dirname imgdata = .ok path → F.writeFile path = F'.writeFile path) :
    upload_image F __dirname client imgdata = upload_image F' __dirname client imgdata := by
  rw [upload_image, upload_image]
  cases hparse : Json.parse imgdata with
  | error e => rfl
  | ok img =>
      simp only [JS.lift_ok_bind]
      cases hname : img.prop "name" with
      | error e => rfl
      | ok name =>
          simp only [JS.lift_ok_bind, JS.str]
          cases htext : name.toStr with
          | error e => rfl
          | ok text =>
              have hpath : uploadPath __dirname imgdata = .ok (imagePath __dirname text.toList) := by
                rw [uploadPath, hparse, Js.except_ok_bind, hname, Js.except_ok_bind, htext]
                rfl
              simp only [JS.lift_ok_bind, h _ hpath]

/-- A download reads at most the file of its URL. -/
theorem get_image_congr {url imgname : List Char} {clientCert : String}
    (hname : decodeURIComponent (encodedName url) = .ok imgname)
    (h : ∀ path, getPath __dirname url = .ok path → F.readFile path = F'.readFile path) :
    get_image E K F __dirname client imgname clientCert =
      get_image E K F' __dirname client imgname clientCert := by
  have hpath : getPath __dirname url = .ok (imagePath __dirname imgname) := by
    rw [getPath, hname]
    rfl
  rw [get_image, get_image, sendImage, sendImage, h _ hpath]

/-- What the server does with a request depends on no file but these two. -/
theorem serve_congr {url : List Char} {post : String}
    (hwrite : ∀ path, uploadPath __dirname post = .ok path → F.writeFile path = F'.writeFile path)
    (hread : ∀ path, getPath __dirname url = .ok path → F.readFile path = F'.readFile path) :
    serve E K F __dirname client url post = serve E K F' __dirname client url post := by
  rw [serve, serve]
  cases hname : decodeURIComponent (encodedName url) with
  | error e => rfl
  | ok imgname =>
      rw [JS.lift_ok_bind, JS.lift_ok_bind, upload_image_congr hwrite, get_image_congr hname hread]

end File

/-! ## Survival -/

section Survive

variable {E : Ext} {K : Keys} {F : Files} {__dirname : List Char} {client : Client}

/-- No exception escapes. -/
def Completes (code : Code) : Prop := code.result = .ok ()

/-- The body of an upload is an object with a string as picture and with a name that
has a string form, and the file system takes the path. -/
def UploadGiven (F : Files) (__dirname : List Char) (imgdata : String) : Prop :=
  ∃ fields name pic outcome, Json.parse imgdata = .ok (.obj fields) ∧
    JsVal.toStr (Json.field "name" fields) = .ok name ∧
    Json.field "pic" fields = some (.str pic) ∧
    F.writeFile (imagePath __dirname name.toList) (withoutHeader pic) = .ok outcome

/-- A certificate is not given, or the hash file can be read and the file system takes
the path of the image that the certificate gives access to. -/
def DownloadGiven (E : Ext) (K : Keys) (F : Files) (__dirname imgname : List Char)
    (clientCert : String) : Prop :=
  clientCert ≠ "" → ∃ cmp_hash, K.readFile "webcam_hash" = .ok cmp_hash ∧
    (sliceEnd cmp_hash = E.sha256 (sliceEnd clientCert) →
      ∃ outcome, F.readFile (imagePath __dirname imgname) = .ok outcome)

/-- The name in the URL is percent-encoded, and the request is an upload or a download
that is given as it should, or neither. -/
def Survivable (E : Ext) (K : Keys) (F : Files) (__dirname url : List Char) (post : String) :
    Prop :=
  ∃ imgname, Encodes (encodedName url) imgname ∧
    (actionOf url = "upload".toList → UploadGiven F __dirname post) ∧
    (actionOf url = "get".toList → DownloadGiven E K F __dirname imgname post)

theorem completes_bind {α : Type} {x : JS Act α} {f : α → Code} :
    Completes (x >>= f) ↔ ∃ a, x.result = .ok a ∧ Completes (f a) := by
  rw [Completes]
  cases h : x.result with
  | error e => simp [JS.bind_result_error h]
  | ok a => simp [JS.bind_result_ok h, Completes]

theorem pngOf_eq_ok {v : JsVal} {png : String} (h : pngOf v = .ok png) :
    ∃ pic, v = some (.str pic) ∧ png = withoutHeader pic := by
  rw [pngOf.eq_def] at h
  split at h
  next pic =>
    cases h
    exact ⟨pic, rfl, rfl⟩
  next => cases h

/-- Only objects have a property that is a string. -/
theorem prop_eq_str {img : Json} {key s : String} (h : img.prop key = .ok (some (.str s))) :
    ∃ fields, img = .obj fields ∧ Json.field key fields = some (.str s) := by
  cases img with
  | obj fields => exact ⟨fields, rfl, Except.ok.inj h⟩
  | null => cases h
  | bool | num | str | arr => cases h

theorem completes_upload_image {imgdata : String} :
    Completes (upload_image F __dirname client imgdata) ↔ UploadGiven F __dirname imgdata := by
  simp only [upload_image, JS.str, completes_bind, JS.lift_result, UploadGiven]
  constructor
  · rintro ⟨img, hparse, name, hname, text, htext, v, hv, png, hpng, outcome, houtcome, -⟩
    obtain ⟨pic, rfl, rfl⟩ := pngOf_eq_ok hpng
    obtain ⟨fields, rfl, hpic⟩ := prop_eq_str hv
    cases hname
    exact ⟨fields, text, pic, outcome, hparse, htext, hpic, houtcome⟩
  · rintro ⟨fields, text, pic, outcome, hparse, htext, hpic, houtcome⟩
    refine ⟨.obj fields, hparse, _, rfl, text, htext, some (.str pic), ?_, _, rfl, outcome,
      houtcome, ?_⟩
    · rw [← hpic]
      rfl
    · cases outcome <;> rfl

theorem completes_sendImage {imgname : List Char} :
    Completes (sendImage F __dirname client imgname) ↔
      ∃ outcome, F.readFile (imagePath __dirname imgname) = .ok outcome := by
  simp only [sendImage, completes_bind, JS.lift_result]
  refine exists_congr fun outcome => and_iff_left ?_
  cases outcome <;> rfl

/-- The comparison with one file completes when the file can be read and the callback
of a match completes. -/
theorem compareHashes_singleton {hash fn : String} {cb : Code} :
    (∃ b, (compareHashes K hash cb [fn]).result = .ok b) ↔
      ∃ cmp_hash, K.readFile fn = .ok cmp_hash ∧ (sliceEnd cmp_hash = hash → Completes cb) := by
  rw [compareHashes]
  cases K.readFile fn with
  | error e => simp
  | ok cmp_hash =>
      rw [JS.lift_ok_bind]
      by_cases heq : sliceEnd cmp_hash = hash
      · rw [if_pos heq, Completes]
        cases hcb : cb.result with
        | error e => simp [JS.bind_result_error hcb, heq]
        | ok _ => simp [JS.bind_result_ok hcb, compareHashes]
      · rw [if_neg heq]
        simp [compareHashes, heq]

theorem completes_get_image {imgname : List Char} {clientCert : String} :
    Completes (get_image E K F __dirname client imgname clientCert) ↔
      DownloadGiven E K F __dirname imgname clientCert := by
  rw [get_image, check, DownloadGiven]
  by_cases hcert : clientCert = ""
  · have falsy : JsVal.truthy (some (.str clientCert)) = false := by simp [Json.truthy, hcert]
    rw [falsy]
    exact iff_of_true rfl fun h => absurd hcert h
  · have truthy : JsVal.truthy (some (.str clientCert)) = true := by simp [Json.truthy, hcert]
    rw [if_pos truthy, certHash, JS.lift_ok_bind, completes_bind]
    -- either callback that is left to call returns
    have rest (b : Bool) : Completes (if b = true then pure () else pure ()) := by
      cases b <;> rfl
    simp only [rest, and_true, ne_eq, hcert, not_false_eq_true, true_imp_iff,
      compareHashes_singleton, completes_sendImage]

/-- The server survives a request exactly when the request is given as it should. -/
theorem serve_completes_iff {url : List Char} {post : String} :
    Completes (serve E K F __dirname client url post) ↔
      Survivable E K F __dirname url post := by
  simp only [serve, completes_bind, JS.lift_result, Js.decodeURIComponent_eq_ok_iff, Survivable]
  refine exists_congr fun imgname => and_congr_right fun _ => ?_
  by_cases hup : actionOf url = "upload".toList
  · have hget : actionOf url ≠ "get".toList := by
      rw [hup]
      decide
    rw [if_pos hup, completes_upload_image]
    simp [hup]
  · rw [if_neg hup]
    by_cases hget : actionOf url = "get".toList
    · rw [if_pos hget, completes_get_image]
      simp [hget]
    · rw [if_neg hget]
      simp only [hup, hget, false_imp_iff, and_self, iff_true]
      rfl

end Survive

section Sample

/-- A file system without errors. -/
def Files.simple : Files where
  writeFile _ _ := .ok none
  readFile _ := .ok (.ok "")

/-- An upload whose body is not JSON ends the server. -/
theorem empty_upload_throws : ¬ ∀ (E : Ext) (K : Keys) (F : Files) (__dirname : List Char)
    (client : Client) (url : List Char) (post : String),
      Completes (serve E K F __dirname client url post) := by
  intro claim
  have completes := claim Ext.simple (.simple []) .simple webcamDir ⟨0, none⟩ "/upload".toList ""
  have throws : (serve Ext.simple (.simple []) .simple webcamDir ⟨0, none⟩ "/upload".toList
      "").result = .error .syntaxError := by decide +kernel
  rw [Completes, throws] at completes
  cases completes

end Sample

end SchuleAlsStaat.Webcam
