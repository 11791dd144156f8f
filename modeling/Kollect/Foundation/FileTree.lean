import Kollect.Foundation.Path

/-
  A working tree of regular files.

  The tree maps the slash path of each file to its content; a directory exists as long as a file
  lies under it, which is also all that a commit keeps of it. `writeFile` creates the parents of the
  file, and fails where one of them is a file.

  Key theorems include:
    * `FileTree.lookup_removeFile`
    * `FileTree.lookup_writeFiles`
-/

/- The content of every file of a working tree, by path. -/
abbrev FileTree := GoMap Text Text

namespace FileTree

----
-- Looking
----

inductive NodeKind where
  | file
  | dir
deriving DecidableEq, Repr

/- The path lies under the directory. -/
def under (dir p : Text) : Bool := (dir ++ ['/']).isPrefixOf p

variable (t : FileTree)

def isDir (dir : Text) : Bool := t.keys.any (under dir)

def stat (p : Text) : Option NodeKind :=
  if (t.lookup p).isSome then some .file
  else if isDir t p then some .dir
  else none

/- The entry of the directory that the path goes through. -/
def childName (dir p : Text) : Option Text :=
  if under dir p then (Path.segments (p.drop (dir.length + 1))).head?
  else none

/- `ReadDir` of a directory below the root: sorted names. -/
def childNames (dir : Text) : List Text :=
  Text.sort (t.keys.filterMap (childName dir)).dedup

/- The directory of a path; the root is `.`. -/
def parentDir (p : Text) : Text :=
  match Text.lastIndex '/' p with
  | some i => p.take i
  | none => ['.']

/- A file stands where the directory or a parent should. -/
def blocked (dir : Text) : Bool :=
  (Path.components dir).any (fun c => (t.lookup c).isSome)

/- The files of a directory, sorted. -/
def filesIn (dir : Text) : List Text :=
  Text.sort (t.keys.filter (fun p => parentDir p = dir))

----
-- Writing
----

/- `MkdirAll` of the parent, then `WriteFile`. -/
def writeFile (p content : Text) : Option FileTree :=
  if (Path.components p).dropLast.any (fun parent => (t.lookup parent).isSome) ||
      isDir t p then none
  else some (t.insert p content)

/- `Remove`, where a missing file is not an error. -/
def removeFile (p : Text) : Option FileTree :=
  if isDir t p then none else some (t.erase p)

def writeFiles : FileTree → List (Text × Text) → Option FileTree
  | t, [] => some t
  | t, (p, content) :: files => do
      let t ← writeFile t p content
      writeFiles t files

def removeFiles : FileTree → List Text → Option FileTree
  | t, [] => some t
  | t, p :: paths => do
      let t ← removeFile t p
      removeFiles t paths

----
-- Looking At A Directory
----

variable {dir : Text}

theorem under_iff {p : Text} : under dir p = true ↔ ∃ rest, p = dir ++ '/' :: rest := by
  rw [under, List.isPrefixOf_iff_prefix]
  constructor
  · rintro ⟨rest, rfl⟩
    exact ⟨rest, by simp⟩
  · rintro ⟨rest, rfl⟩
    exact ⟨rest, by simp⟩

theorem under_append (dir rest : Text) : under dir (dir ++ '/' :: rest) = true :=
  under_iff.mpr ⟨rest, rfl⟩

@[simp] theorem childName_append {name : Text} (hName : '/' ∉ name) :
    childName dir (dir ++ '/' :: name) = some name := by
  rw [childName, if_pos (under_append dir name), List.append_cons, List.drop_left' (by simp),
    Path.segments_eq_singleton hName]
  rfl

theorem mem_childNames {t : FileTree} {name : Text} :
    name ∈ childNames t dir ↔ ∃ p ∈ t.keys, childName dir p = some name := by
  rw [childNames, Text.mem_sort, List.mem_dedup, List.mem_filterMap]

theorem nodup_childNames (dir : Text) : (childNames t dir).Nodup := by
  unfold childNames
  rw [Text.nodup_sort]
  exact List.nodup_dedup _

theorem mem_keys_iff_lookup {t : FileTree} {p : Text} :
    p ∈ t.keys ↔ (t.lookup p).isSome = true := by
  rw [AList.lookup_isSome, AList.mem_keys]

----
-- Looking At A Written Tree
----

section Lookup

variable {t t' : FileTree} {p content : Text}

theorem lookup_writeFile (hWrite : writeFile t p content = some t') (q : Text) :
    t'.lookup q = if q = p then some content else t.lookup q := by
  unfold writeFile at hWrite
  split_ifs at hWrite
  obtain rfl : t.insert p content = t' := by simpa using hWrite
  exact GoMap.lookup_insert_ite t p q content

theorem lookup_removeFile (hRemove : removeFile t p = some t') (q : Text) :
    t'.lookup q = if q = p then none else t.lookup q := by
  unfold removeFile at hRemove
  split_ifs at hRemove
  obtain rfl : t.erase p = t' := by simpa using hRemove
  exact GoMap.lookup_erase_ite t p q

theorem lookup_removeFiles
    {paths : List Text} (hRemove : removeFiles t paths = some t') (q : Text) :
    t'.lookup q = if q ∈ paths then none else t.lookup q := by
  induction paths generalizing t with
  | nil =>
    obtain rfl : t = t' := by simpa [removeFiles] using hRemove
    simp
  | cons p paths ih =>
    simp only [removeFiles, Option.bind_eq_bind, Option.bind_eq_some_iff] at hRemove
    obtain ⟨u, hFirst, hRest⟩ := hRemove
    rw [ih hRest, lookup_removeFile hFirst]
    by_cases hMem : q ∈ paths
    · simp [hMem]
    · simp [hMem]

variable {files : List (Text × Text)}

theorem lookup_writeFiles_of_notMem (hWrite : writeFiles t files = some t') {q : Text}
    (hNot : q ∉ files.map Prod.fst) : t'.lookup q = t.lookup q := by
  induction files generalizing t with
  | nil =>
    obtain rfl : t = t' := by simpa [writeFiles] using hWrite
    rfl
  | cons file files ih =>
    simp only [writeFiles, Option.bind_eq_bind, Option.bind_eq_some_iff] at hWrite
    obtain ⟨u, hFirst, hRest⟩ := hWrite
    rw [List.map_cons, List.mem_cons, not_or] at hNot
    rw [ih hRest hNot.2, lookup_writeFile hFirst, if_neg hNot.1]

theorem lookup_writeFiles (hNodup : (files.map Prod.fst).Nodup)
    (hWrite : writeFiles t files = some t') {file : Text × Text} (hFile : file ∈ files) :
    t'.lookup file.1 = some file.2 := by
  induction files generalizing t with
  | nil => exact absurd hFile (List.not_mem_nil)
  | cons first files ih =>
    simp only [writeFiles, Option.bind_eq_bind, Option.bind_eq_some_iff] at hWrite
    obtain ⟨u, hFirst, hRest⟩ := hWrite
    rw [List.map_cons, List.nodup_cons] at hNodup
    rcases List.mem_cons.mp hFile with rfl | hTail
    · rw [lookup_writeFiles_of_notMem hRest hNodup.1, lookup_writeFile hFirst, if_pos rfl]
    · exact ih hNodup.2 hRest hTail

end Lookup

end FileTree
