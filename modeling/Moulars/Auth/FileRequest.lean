import Moulars.Lib.Paths

/-!
The paths the auth server opens for a `FileDownloadRequest`.

The request is checked on its two parts around the backslash, the file system sees the path
with the backslash turned into `/`. The second part may hold further `/`, so the file that is
opened need not be in the directory that was checked.
-/

namespace Moulars.Auth

open Lib.Paths

/-- `path_utils::to_native`, where `/` is the native separator. -/
def toNative (path : List Char) : List Char := path.map fun ch => if ch = '\\' then '/' else ch

def checkFileRequest (dirName ext : List Char) : Bool :=
  (dirName = "Python".toList && ext = "pak".toList) ||
    (dirName = "SDL".toList && ext = "sdl".toList)

/-- The path `open_server_file` opens, if it gets so far. -/
def downloadPath (filename : List Char) (dataRoot : Path) : Option Path :=
  match filename.splitOn '\\' with
  | [dirName, file] =>
    let path := join dataRoot (toNative filename)
    let ext := (extension path).getD []
    if !checkFileRequest dirName ext || file.head? == some '.' then none else some path
  | _ => none

/-! ### What is opened -/

/-- A path that leads to a file of the kind `ext` right in the directory `dirName`. -/
def IsFileIn (dataRoot : Path) (dirName ext : List Char) (path : Path) : Prop :=
  ∃ file, resolve path = (resolve (join dataRoot dirName)).child file ∧ extensionOf file = some ext

def Servable (dataRoot path : Path) : Prop :=
  IsFileIn dataRoot "Python".toList "pak".toList path ∨
    IsFileIn dataRoot "SDL".toList "sdl".toList path

/-- Where the directories named in front of the file lead, seen from the directory that was
checked. -/
def detour (file : List Char) : Place := (parts file).dropLast.foldl Place.follow .here

/-- What the request climbs up with `..`, beyond the directories it has itself named before, it
goes down again. -/
def ComesBack (dataRoot : Path) (filename : List Char) : Prop :=
  match filename.splitOn '\\' with
  | [dirName, file] =>
    let dir := resolve (join dataRoot dirName)
    (detour file).names = dir.names.drop (dir.names.length - (detour file).ups) ∧
      (dir.root = true ∨ (detour file).ups ≤ dir.names.length)
  | _ => False

instance (dataRoot : Path) (filename : List Char) : Decidable (ComesBack dataRoot filename) := by
  unfold ComesBack
  split <;> infer_instance

/-- A directory name the filter lets through. -/
structure PlainName (s : List Char) : Prop where
  noSlash : '/' ∉ s
  noBackslash : '\\' ∉ s
  part : Part.ofPiece s = some (.normal s)
  noExtension : extensionOf s = none

lemma plainName_of_check {dirName ext : List Char} (h : checkFileRequest dirName ext = true) :
    PlainName dirName ∧ (dirName = "Python".toList ∧ ext = "pak".toList ∨
      dirName = "SDL".toList ∧ ext = "sdl".toList) := by
  simp only [checkFileRequest, Bool.or_eq_true, Bool.and_eq_true, decide_eq_true_eq] at h
  refine ⟨?_, h⟩
  rcases h with ⟨rfl, -⟩ | ⟨rfl, -⟩ <;> exact ⟨by decide, by decide, by decide, by decide⟩

lemma PlainName.hasRoot_append {s : List Char} (h : PlainName s) (rest : List Char) :
    hasRoot (s ++ rest) = false := by
  cases s with
  | nil => cases h.part
  | cons c s =>
    have hc : c ≠ '/' := fun he => h.noSlash (he ▸ List.mem_cons_self)
    simpa [hasRoot] using hc

lemma PlainName.resolve_join {s : List Char} (h : PlainName s) (base : Path) :
    resolve (join base s) = (resolve base).child s := by
  have hroot : hasRoot s = false := by simpa using h.hasRoot_append []
  rw [Lib.Paths.resolve_join hroot, parts_of_notMem h.noSlash, h.part]
  rfl

lemma toNative_of_splitOn {filename dirName file : List Char} (hname : PlainName dirName)
    (h : filename.splitOn '\\' = [dirName, file]) :
    toNative filename = dirName ++ '/' :: file := by
  have hjoin : dirName ++ '\\' :: file = filename := by
    have hparts : List.intercalate ['\\'] (filename.splitOn '\\') = filename :=
      List.intercalate_splitOn '\\'
    simpa [h, List.intercalate] using hparts
  have hfile : '\\' ∉ file := by
    intro hmem
    obtain ⟨a, b, rfl⟩ := List.append_of_mem hmem
    rw [← hjoin, List.splitOn_append_cons_self_of_not_mem hname.noBackslash,
      List.splitOn_append_cons_self] at h
    have hlen := congrArg List.length h
    have ha := List.length_pos_iff.2 (List.splitOn_ne_nil '\\' a)
    have hb := List.length_pos_iff.2 (List.splitOn_ne_nil '\\' b)
    simp only [List.length_cons, List.length_append, List.length_nil] at hlen
    omega
  have hkeep {s : List Char} (hs : '\\' ∉ s) : toNative s = s := by
    refine (List.map_congr_left fun c hc => if_neg ?_).trans (List.map_id' s)
    rintro rfl
    exact hs hc
  rw [← hjoin, toNative, List.map_append, List.map_cons]
  exact congrArg₂ (· ++ '/' :: ·) (hkeep hname.noBackslash) (hkeep hfile)

/-- What is known of a path that is opened: it ends in a file of the right kind, reached from
the directory that was checked by the detour the request names. -/
lemma downloadPath_eq_some {filename : List Char} {dataRoot path : Path}
    (h : downloadPath filename dataRoot = some path) :
    ∃ dirName file ext name, filename.splitOn '\\' = [dirName, file] ∧ PlainName dirName ∧
      (dirName = "Python".toList ∧ ext = "pak".toList ∨
        dirName = "SDL".toList ∧ ext = "sdl".toList) ∧
      extensionOf name = some ext ∧
      resolve path = ((resolve (join dataRoot dirName)).seenFrom (detour file)).child name := by
  unfold downloadPath at h
  split at h
  · rename_i dirName file hsplit
    simp only [Option.ite_none_left_eq_some, Bool.or_eq_true, Bool.not_eq_true', not_or,
      Bool.not_eq_false, Option.some.injEq] at h
    obtain ⟨⟨hcheck, -⟩, rfl⟩ := h
    obtain ⟨hname, hkind⟩ := plainName_of_check hcheck
    generalize hext : (extension (join dataRoot (toNative filename))).getD [] = ext at hkind
    rw [toNative_of_splitOn hname hsplit] at hext ⊢
    have hroot := hname.hasRoot_append ('/' :: file)
    have hparts : parts (join dataRoot (dirName ++ '/' :: file)) =
        (parts dataRoot ++ [.normal dirName]) ++ parts file := by
      rw [parts_join hroot, parts_append_slash, parts_of_notMem hname.noSlash, hname.part,
        List.append_assoc]
      rfl
    -- the extension is the one of the last part, which is not the directory's
    have hlast : ∃ dirs name,
        parts file = dirs ++ [.normal name] ∧ extensionOf name = some ext := by
      have hsome : extension (join dataRoot (dirName ++ '/' :: file)) = some ext := by
        cases he : extension (join dataRoot (dirName ++ '/' :: file)) with
        | some e => rw [← hext, he]; rfl
        | none =>
          rw [he] at hext
          rcases hkind with ⟨-, rfl⟩ | ⟨-, rfl⟩ <;> cases hext
      obtain ⟨all, name, hall, hnameExt⟩ := extension_eq_some hsome
      rw [hparts] at hall
      rcases List.eq_nil_or_concat (parts file) with hnil | ⟨dirs, last, hcons⟩
      · rw [hnil, List.append_nil, List.append_singleton_inj] at hall
        obtain rfl : dirName = name := by simpa using hall.2
        rw [hname.noExtension] at hnameExt
        cases hnameExt
      · rw [List.concat_eq_append] at hcons
        rw [hcons, ← List.append_assoc, List.append_singleton_inj] at hall
        exact ⟨dirs, name, hall.2 ▸ hcons, hnameExt⟩
    obtain ⟨dirs, name, hfile, hnameExt⟩ := hlast
    refine ⟨dirName, file, ext, name, hsplit, hname, hkind, hnameExt, ?_⟩
    rw [hname.resolve_join, detour, hfile, List.dropLast_concat, ← Place.foldl_follow, resolve,
      hasRoot_join hroot, hparts, hfile, List.foldl_append, List.foldl_append, List.foldl_append]
    rfl
  · cases h

/-- **What can be downloaded**: a path that is opened leads to a file of the right kind right in
one of the two directories, if and only if the request comes back to the directory it names. -/
theorem download_servable_iff {filename : List Char} {dataRoot path : Path}
    (h : downloadPath filename dataRoot = some path) :
    Servable dataRoot path ↔ ComesBack dataRoot filename := by
  obtain ⟨dirName, file, ext, name, hsplit, hname, hkind, hext, hresolve⟩ := downloadPath_eq_some h
  have hback : ComesBack dataRoot filename ↔
      (resolve (join dataRoot dirName)).seenFrom (detour file) =
        resolve (join dataRoot dirName) := by
    rw [Place.seenFrom_eq_self, ComesBack, hsplit]
  rw [hback]
  constructor
  · intro hserv
    have hin : IsFileIn dataRoot dirName ext path := by
      rcases hserv with hserv | hserv <;> rcases hkind with ⟨rfl, rfl⟩ | ⟨rfl, rfl⟩
      · exact hserv
      · obtain ⟨file', hres, hext'⟩ := hserv
        rw [hresolve, Place.child_inj] at hres
        rw [← hres.2, hext] at hext'
        cases hext'
      · obtain ⟨file', hres, hext'⟩ := hserv
        rw [hresolve, Place.child_inj] at hres
        rw [← hres.2, hext] at hext'
        cases hext'
      · exact hserv
    obtain ⟨file', hres, -⟩ := hin
    rw [hresolve, Place.child_inj] at hres
    exact hres.1
  · intro heq
    have hin : IsFileIn dataRoot dirName ext path := ⟨name, by rw [hresolve, heq], hext⟩
    rcases hkind with ⟨rfl, rfl⟩ | ⟨rfl, rfl⟩
    · exact .inl hin
    · exact .inr hin

theorem download_plain_servable :
    downloadPath "Python\\Python.pak".toList "/srv/data".toList =
        some "/srv/data/Python/Python.pak".toList ∧
      Servable "/srv/data".toList "/srv/data/Python/Python.pak".toList :=
  have h : downloadPath "Python\\Python.pak".toList "/srv/data".toList =
      some "/srv/data/Python/Python.pak".toList := by decide
  ⟨h, (download_servable_iff h).2 (by decide)⟩

/-- A request whose second part climbs out of the data directory is opened all the same. -/
theorem download_escapes :
    downloadPath "Python\\x/../../../secret.pak".toList "/srv/data".toList =
        some "/srv/data/Python/x/../../../secret.pak".toList ∧
      resolve "/srv/data/Python/x/../../../secret.pak".toList =
        resolve "/srv/secret.pak".toList ∧
      ¬ Servable "/srv/data".toList "/srv/data/Python/x/../../../secret.pak".toList := by
  refine ⟨by decide, by decide, ?_⟩
  have hlen : (resolve "/srv/data/Python/x/../../../secret.pak".toList).names.length = 2 := by
    decide
  have hpython : (resolve (join "/srv/data".toList "Python".toList)).names.length = 3 := by decide
  have hsdl : (resolve (join "/srv/data".toList "SDL".toList)).names.length = 3 := by decide
  rintro (⟨file, hres, -⟩ | ⟨file, hres, -⟩)
  · rw [hres, Place.child, List.length_append, hpython] at hlen
    cases hlen
  · rw [hres, Place.child, List.length_append, hsdl] at hlen
    cases hlen

end Moulars.Auth
