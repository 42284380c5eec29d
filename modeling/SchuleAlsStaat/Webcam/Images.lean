import SchuleAlsStaat.Js.Parse
import SchuleAlsStaat.Js.UriComponent
import SchuleAlsStaat.Lib.Framing
import SchuleAlsStaat.Lib.Paths

/-!
# The files of the webcam server

`upload_image` writes the file that a client names in the body of a request, and
`get_image` reads the one that a URL names.  Both join the name to the directory of
the images.  The name is not checked, and with parent segments it leads out of the
directory unless it leads back again.
-/

namespace SchuleAlsStaat.Webcam

open Js (Exn Json JsVal decodeURIComponent Encodes)
open Paths (Segment Inside walk reduce)

/-! ## Joining paths -/

/-- What stands between two slashes of a path. -/
def segment (s : List Char) : Segment (List Char) :=
  if s = [] ∨ s = ['.'] then .here
  else if s = ['.', '.'] then .parent
  else .name s

def segments (path : List Char) : List (Segment (List Char)) := (path.splitOn '/').map segment

/-- The strings that are not empty, with slashes in between. -/
def joined (paths : List (List Char)) : List Char := ['/'].intercalate (paths.filter (· ≠ []))

/-- `path.join` of an absolute path and others, as the names from the root. -/
def join (paths : List (List Char)) : List (List Char) := walk [] (segments (joined paths))

theorem segments_append (path path' : List Char) :
    segments (path ++ '/' :: path') = segments path ++ segments path' := by
  rw [segments, List.splitOn_append_cons_self, List.map_append]
  rfl

theorem intercalate_concat {sep : List Char} {l : List (List Char)} (h : l ≠ []) (x : List Char) :
    sep.intercalate (l ++ [x]) = sep.intercalate l ++ (sep ++ x) := by
  induction l with
  | nil => exact absurd rfl h
  | cons y l ih =>
      cases l with
      | nil => simp
      | cons z l =>
          have ih := ih (List.cons_ne_nil z l)
          simp only [List.cons_append, List.intercalate_cons_cons] at ih ⊢
          rw [ih]
          simp

/-- A further path is walked from the directory of the others. -/
theorem join_concat {paths : List (List Char)} (h : ∃ path ∈ paths, path ≠ []) {path : List Char}
    (hne : path ≠ []) : join (paths ++ [path]) = walk (join paths) (segments path) := by
  have hfilter : paths.filter (· ≠ []) ≠ [] := by
    obtain ⟨p, hp, hpne⟩ := h
    exact List.ne_nil_of_mem (List.mem_filter.mpr ⟨hp, decide_eq_true hpne⟩)
  have hsingle : [path].filter (· ≠ []) = [path] := by simp [hne]
  have hjoined : joined (paths ++ [path]) = joined paths ++ '/' :: path := by
    rw [joined, List.filter_append, hsingle, intercalate_concat hfilter]
    rfl
  rw [join, hjoined, segments_append, Paths.walk_append]
  rfl

/-! ## The images -/

def IMG_PATH : List Char := "img".toList

/-- The directory of the images. -/
def imageDir (__dirname : List Char) : List (List Char) := join [__dirname, IMG_PATH]

/-- `path.join(__dirname, IMG_PATH, name + ".png")`. -/
def imagePath (__dirname name : List Char) : List (List Char) :=
  join [__dirname, IMG_PATH, name ++ ".png".toList]

/-- The file that `upload_image` writes. -/
def uploadPath (__dirname : List Char) (imgdata : String) : Except Exn (List (List Char)) := do
  let img ← Json.parse imgdata
  let name ← img.prop "name"
  return imagePath __dirname (← name.toStr).toList

/-- The first element of `query`. -/
def actionOf (url : List Char) : List Char := ((url.drop 1).splitOn '/').headD []

/-- The second element of `query`, before it is decoded. -/
def encodedName (url : List Char) : List Char :=
  ['/'].intercalate ((url.drop 1).splitOn '/').tail

/-- The file that `get_image` reads. -/
def getPath (__dirname url : List Char) : Except Exn (List (List Char)) :=
  (decodeURIComponent (encodedName url)).map (imagePath __dirname)

/-! ## Staying inside -/

theorem imagePath_eq_walk (__dirname name : List Char) :
    imagePath __dirname name =
      walk (imageDir __dirname) (segments (name ++ ".png".toList)) := by
  have hdir : ∃ path ∈ [__dirname, IMG_PATH], path ≠ [] := ⟨IMG_PATH, by simp, by decide⟩
  exact join_concat hdir (by simp)

/-- A name stays below the directory of the images: reduced by itself, it is some
parents followed by names, and these begin with the names that the parents have left
and go on. -/
def StaysBelow (__dirname name : List Char) : Prop :=
  let r := reduce (segments (name ++ ".png".toList))
  Inside ((imageDir __dirname).drop ((imageDir __dirname).length - r.parents)) r.names

instance (__dirname name : List Char) : Decidable (StaysBelow __dirname name) := by
  unfold StaysBelow
  infer_instance

theorem inside_imagePath_iff (__dirname name : List Char) :
    Inside (imageDir __dirname) (imagePath __dirname name) ↔ StaysBelow __dirname name := by
  rw [imagePath_eq_walk, Paths.walk_eq_apply, Paths.inside_apply_iff]
  rfl

/-- The last segment has the extension, so it is a name. -/
theorem exists_name_mem_segments (name : List Char) :
    ∃ a, .name a ∈ segments (name ++ ".png".toList) := by
  have hpng : '/' ∉ ".png".toList := by decide
  induction name using Framing.induction '/' with
  | unfinished name h =>
      refine ⟨name ++ ".png".toList, ?_⟩
      rw [segments, List.splitOn_eq_singleton (by simp [h])]
      have hlong (s : List Char) (hs : s.length < 4) : name ++ ".png".toList ≠ s := by
        rintro rfl
        rw [List.length_append] at hs
        exact absurd hs (Nat.not_lt_of_le (Nat.le_add_left 4 _))
      have hhere := not_or.mpr ⟨hlong [] (by decide), hlong ['.'] (by decide)⟩
      rw [List.map_singleton, segment, if_neg hhere, if_neg (hlong ['.', '.'] (by decide))]
      exact List.mem_singleton_self _
  | frame a name h ih =>
      obtain ⟨b, hb⟩ := ih
      refine ⟨b, ?_⟩
      rw [List.append_assoc, List.cons_append, segments_append]
      exact List.mem_append_right _ hb

/-- A name without parent segments stays below. -/
theorem staysBelow_of_no_parent (__dirname : List Char) {name : List Char}
    (h : ['.', '.'] ∉ (name ++ ".png".toList).splitOn '/') : StaysBelow __dirname name := by
  have hparent : ∀ s ∈ segments (name ++ ".png".toList), s ≠ .parent := by
    intro s hs
    obtain ⟨t, ht, rfl⟩ := List.mem_map.mp hs
    have hne : t ≠ ['.', '.'] := ne_of_mem_of_not_mem ht h
    rw [segment, if_neg hne]
    split <;> nofun
  obtain ⟨a, ha⟩ := exists_name_mem_segments name
  exact Paths.inside_of_no_parent hparent ha (imageDir __dirname)

/-- The file of an upload with strings as name and picture lies in the directory
exactly when the name stays below it, and so does the file of a URL. -/
theorem image_inside_iff (__dirname : List Char) :
    (∀ (imgdata : String) (fields : List (String × Json)) (name pic : String),
      Json.parse imgdata = .ok (.obj fields) → Json.field "name" fields = some (.str name) →
      Json.field "pic" fields = some (.str pic) →
      ∃ path, uploadPath __dirname imgdata = .ok path ∧
        (Inside (imageDir __dirname) path ↔ StaysBelow __dirname name.toList)) ∧
    ∀ url name : List Char, actionOf url = "get".toList →
      decodeURIComponent (encodedName url) = .ok name →
      ∃ path, getPath __dirname url = .ok path ∧
        (Inside (imageDir __dirname) path ↔ StaysBelow __dirname name) := by
  constructor
  · intro imgdata fields name pic hparse hname _
    refine ⟨imagePath __dirname name.toList, ?_, inside_imagePath_iff __dirname name.toList⟩
    have hprop : Json.prop "name" (.obj fields) = .ok (some (.str name)) := by
      rw [← hname]
      rfl
    rw [uploadPath, hparse]
    show (do
      let name ← Json.prop "name" (.obj fields)
      return imagePath __dirname (← name.toStr).toList) = _
    rw [hprop]
    rfl
  · intro url name _ hdecode
    refine ⟨imagePath __dirname name, ?_, inside_imagePath_iff __dirname name⟩
    rw [getPath, hdecode]
    rfl

section Sample

def webcamDir : List Char := "/srv/webcam".toList

example : StaysBelow webcamDir "photo".toList := by decide
example : StaysBelow webcamDir "../img/photo".toList := by decide

/-- A name that starts with a parent segment leads out of the directory, in an upload
and in a URL. -/
theorem parent_name_leaves : ¬ ∀ __dirname : List Char,
    (∀ (imgdata : String) (fields : List (String × Json)) (name pic : String),
      Json.parse imgdata = .ok (.obj fields) → Json.field "name" fields = some (.str name) →
      Json.field "pic" fields = some (.str pic) →
      ∃ path, uploadPath __dirname imgdata = .ok path ∧ Inside (imageDir __dirname) path) ∧
    ∀ url name : List Char, actionOf url = "get".toList →
      decodeURIComponent (encodedName url) = .ok name →
      ∃ path, getPath __dirname url = .ok path ∧ Inside (imageDir __dirname) path := by
  intro claim
  have hparse : Json.parse "\x7b\"name\":\"../main\",\"pic\":\"\"\x7d" =
      .ok (.obj [("name", .str "../main"), ("pic", .str "")]) :=
    Json.parse_of_lex (by decide +kernel)
  obtain ⟨path, hpath, hinside⟩ := (claim webcamDir).1 _ _ "../main" "" hparse rfl rfl
  have hmain : uploadPath webcamDir "\x7b\"name\":\"../main\",\"pic\":\"\"\x7d" =
      .ok (imagePath webcamDir "../main".toList) := by
    rw [uploadPath, hparse]
    rfl
  cases hpath.symm.trans hmain
  exact absurd hinside (by decide)

end Sample

end SchuleAlsStaat.Webcam
