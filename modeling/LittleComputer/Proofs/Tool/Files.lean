import LittleComputer.Tool.Files
import Mathlib.Data.List.Infix

/-!
Paths and files.  The extension of a path is what stands after the last dot of its file name.  A
write changes one location; it makes and removes no directory, so afterwards every path leads where
it led before.
-/
namespace LittleComputer.Tool

/-! File names and extensions. -/

section Paths

variable {directory name stem old : List Char}

/-- What may stand before a file name. -/
def IsDirectoryPart (directory : List Char) : Prop :=
  directory = [] ∨ ∃ above, directory = above ++ ['/']

structure IsFileName (name : List Char) : Prop where
  slash : '/' ∉ name
  nil : name ≠ []
  dot : name ≠ ['.']
  dots : name ≠ ['.', '.']

/-- What may stand before the last dot of a file name.  After a lone dot, the name without its
extension would be that of a directory. -/
structure IsStem (stem : List Char) : Prop where
  slash : '/' ∉ stem
  nil : stem ≠ []
  dot : stem ≠ ['.']

theorem IsStem.isFileName (hstem : IsStem stem) (hslash : '/' ∉ old) :
    IsFileName (stem ++ '.' :: old) where
  slash := by simp [hstem.slash, hslash]
  nil := by simp
  dot := by simp [List.append_eq_cons_iff, hstem.nil]
  dots := by
    intro hdots
    match stem with
    | [] => exact hstem.nil rfl
    | [c] =>
        obtain rfl : c = '.' := (List.cons.inj hdots).1
        exact hstem.dot rfl
    | c :: d :: tail => simp at hdots

theorem forall_mem_reverse_ne {c : Char} {text : List Char} (hmem : c ∉ text) :
    ∀ d ∈ text.reverse, decide (d ≠ c) = true := by
  intro d hd
  rw [decide_eq_true_eq]
  rintro rfl
  exact hmem (List.mem_reverse.mp hd)

/-- Nothing is trimmed off a file name. -/
theorem trimReversed_append (hslash : '/' ∉ name) (hnil : name ≠ []) (hdot : name ≠ ['.'])
    (rest : List Char) : trimReversed (name ++ rest) = name ++ rest := by
  match name with
  | [] => exact absurd rfl hnil
  | [c] =>
      rw [List.singleton_append, trimReversed]
      · rintro _ ⟨⟩
        simp at hslash
      · rintro _ ⟨⟩
        exact hdot rfl
  | c :: d :: tail =>
      rw [List.cons_append, List.cons_append, trimReversed]
      · rintro _ ⟨⟩
        simp at hslash
      · rintro _ ⟨⟩
        simp at hslash

theorem splitName?_eq (hdirectory : IsDirectoryPart directory) (hslash : '/' ∉ name)
    (hnil : name ≠ []) (hdot : name ≠ ['.']) :
    splitName? (directory ++ name) =
      if name = ['.', '.'] then none else some (directory, name) := by
  have htrimmed : trimReversed (directory ++ name).reverse =
      name.reverse ++ directory.reverse := by
    rw [List.reverse_append]
    apply trimReversed_append
    · simpa using hslash
    · simpa using hnil
    · simpa [List.reverse_eq_iff] using hdot
  have hall := forall_mem_reverse_ne hslash
  have htake : directory.reverse.takeWhile (· ≠ '/') = [] := by
    rcases hdirectory with rfl | ⟨above, rfl⟩ <;> simp
  have hdrop : directory.reverse.dropWhile (· ≠ '/') = directory.reverse := by
    rcases hdirectory with rfl | ⟨above, rfl⟩ <;> simp
  rw [splitName?, htrimmed, List.takeWhile_append_of_pos hall, List.dropWhile_append_of_pos hall,
    htake, hdrop, List.append_nil, List.reverse_reverse, List.reverse_reverse]
  simp only [hnil, hdot, false_or]

theorem splitName?_append (hdirectory : IsDirectoryPart directory) (hname : IsFileName name) :
    splitName? (directory ++ name) = some (directory, name) := by
  rw [splitName?_eq hdirectory hname.slash hname.nil hname.dot, if_neg hname.dots]

theorem splitExtension_append (hnil : stem ≠ []) (hold : '.' ∉ old) :
    splitExtension (stem ++ '.' :: old) = (stem, some old) := by
  have hall := forall_mem_reverse_ne hold
  have hreversed : (stem ++ '.' :: old).reverse = old.reverse ++ '.' :: stem.reverse := by simp
  obtain ⟨c, front, hfront⟩ := List.exists_cons_of_ne_nil (List.reverse_ne_nil_iff.mpr hnil)
  rw [splitExtension, hreversed, List.dropWhile_append_of_pos hall,
    List.takeWhile_append_of_pos hall, List.dropWhile_cons_of_neg (by decide),
    List.takeWhile_cons_of_neg (by decide), hfront]
  simp only [← hfront, List.reverse_reverse, List.append_nil]

/-- A name without a dot after its first character has no extension. -/
theorem splitExtension_of_not_mem_tail (hdot : '.' ∉ name.tail) :
    splitExtension name = (name, none) := by
  cases name with
  | nil => rfl
  | cons c tail =>
      rw [List.tail_cons] at hdot
      rw [splitExtension, List.reverse_cons,
        List.dropWhile_append_of_pos (forall_mem_reverse_ne hdot)]
      by_cases hc : c = '.' <;> simp [hc]

variable {extension : String}

/-- The path up to its old extension. -/
theorem take_length_sub (front old : List Char) :
    (front ++ old).take ((front ++ old).length - old.length) = front := by
  rw [List.length_append, Nat.add_sub_cancel, List.take_left]

/-- What stands after the last dot of a file name is replaced. -/
theorem withExtension_of_extension (hdirectory : IsDirectoryPart directory) (hstem : IsStem stem)
    (hdot : '.' ∉ old) (hslash : '/' ∉ old) (hextension : extension ≠ "") :
    withExtension (String.ofList (directory ++ (stem ++ '.' :: old))) extension =
      String.ofList (directory ++ stem ++ '.' :: extension.toList) := by
  have hsplit := splitName?_append hdirectory (hstem.isFileName hslash)
  have hsplit' := splitName?_append hdirectory (hstem.isFileName (by simp : '/' ∉ []))
  have hkept := take_length_sub (directory ++ (stem ++ ['.'])) old
  simp only [List.append_assoc, List.singleton_append] at hkept
  rw [withExtension, String.toList_ofList, hsplit]
  simp only [Option.bind_eq_bind, Option.bind_some, splitExtension_append hstem.nil hdot,
    Option.getD_some]
  rw [hkept, setExtension, hsplit']
  simp only [splitExtension_append hstem.nil (by simp : '.' ∉ []), String.toList_eq_nil_iff,
    hextension, if_false]

/-- A file name without an extension gets one. -/
theorem withExtension_of_no_extension (hdirectory : IsDirectoryPart directory)
    (hname : IsFileName name) (hdot : '.' ∉ name.tail) (hextension : extension ≠ "") :
    withExtension (String.ofList (directory ++ name)) extension =
      String.ofList (directory ++ name ++ '.' :: extension.toList) := by
  have hsplit := splitName?_append hdirectory hname
  rw [withExtension, String.toList_ofList, hsplit]
  simp only [Option.bind_eq_bind, Option.bind_some, splitExtension_of_not_mem_tail hdot,
    Option.getD_none, List.length_nil, Nat.sub_zero, List.take_length]
  rw [setExtension, hsplit]
  simp only [splitExtension_of_not_mem_tail hdot, String.toList_eq_nil_iff, hextension, if_false]

/-- After two dots in front the extension is taken off and none is set, because what is left names a
directory. -/
theorem withExtension_of_dots (hdirectory : IsDirectoryPart directory) (hnil : old ≠ [])
    (hdot : '.' ∉ old) (hslash : '/' ∉ old) :
    withExtension (String.ofList (directory ++ '.' :: '.' :: old)) extension =
      String.ofList (directory ++ ['.', '.']) := by
  have hname : IsFileName ('.' :: '.' :: old) :=
    ⟨by simp [hslash], by simp, by simp, by simp [hnil]⟩
  have hextension : splitExtension ('.' :: '.' :: old) = (['.'], some old) :=
    @splitExtension_append ['.'] old (by simp) hdot
  have hdots : splitName? (directory ++ ['.', '.']) = none :=
    splitName?_eq hdirectory (by decide) (by decide) (by decide)
  have hkept := take_length_sub (directory ++ ['.', '.']) old
  simp only [List.append_assoc, List.cons_append, List.nil_append] at hkept
  rw [withExtension, String.toList_ofList, splitName?_append hdirectory hname]
  simp only [Option.bind_eq_bind, Option.bind_some, hextension, Option.getD_some]
  rw [hkept, setExtension, hdots]

example : withExtension "/x/..b" "bin" = "/x/.." := by decide

/-- A path without a file name stays as it is. -/
theorem withExtension_of_no_name {path : String} (hname : splitName? path.toList = none) :
    withExtension path extension = path := by
  rw [withExtension, hname]
  simp only [Option.bind_eq_bind, Option.bind_none, Option.getD_none, List.length_nil, Nat.sub_zero,
    List.take_length]
  rw [setExtension, hname, String.ofList_toList]

-- Slashes and single dots after a file name are dropped, and do not make a path without a name.
example : withExtension "/x/a.b//" "bin" = "/x/a.bin" ∧ withExtension "a/." "bin" = "a.bin" ∧
    withExtension "/" "bin" = "/" := by decide

end Paths

namespace FileTree

variable {tree tree' : FileTree} {location other : Location} {path : String} {content : ByteArray}

/-! Directories. -/

theorem isDirectory_iff : tree.isDirectory location ↔
    location <+: tree.workingDirectory ∨
      ∃ file ∈ tree.files, location <+: file.1 ∧ location.length < file.1.length := by
  simp [isDirectory]

theorem isDirectory_of_isPrefix (hupper : other <+: location) (hdir : tree.isDirectory location) :
    tree.isDirectory other := by
  rw [isDirectory_iff] at hdir ⊢
  apply hdir.imp
  · exact hupper.trans
  · rintro ⟨file, hfile, hbelow, hlength⟩
    exact ⟨file, hfile, hupper.trans hbelow, hupper.length_le.trans_lt hlength⟩

theorem isDirectory_dropLast (hdir : tree.isDirectory location) :
    tree.isDirectory location.dropLast :=
  isDirectory_of_isPrefix (List.dropLast_prefix location) hdir

/-- Every path begins in a directory. -/
theorem isDirectory_origin (tree : FileTree) (path : String) :
    tree.isDirectory (tree.origin path) := by
  rw [isDirectory_iff, origin]
  left
  split
  · exact List.nil_prefix
  · exact List.prefix_rfl

/-- A path leads to something in a directory. -/
theorem isDirectory_dropLast_of_follow {here : Location} {parts : List String}
    (hhere : tree.isDirectory here) (hfollow : tree.follow here parts = .ok location) :
    tree.isDirectory location.dropLast := by
  -- The walk stands in a directory at every part but the last.
  induction parts generalizing here with
  | nil =>
      obtain rfl : here = location := by simpa [follow] using hfollow
      exact isDirectory_dropLast hhere
  | cons part rest ih =>
      rw [follow] at hfollow
      split at hfollow
      · exact ih hhere hfollow
      split at hfollow
      · exact ih (isDirectory_dropLast hhere) hfollow
      split at hfollow
      · cases hfollow
      dsimp only at hfollow
      split at hfollow
      · cases hfollow
        rwa [List.dropLast_concat]
      split at hfollow
      · rename_i hnext
        exact ih hnext hfollow
      · cases hfollow

theorem isDirectory_dropLast_of_locate (hlocate : tree.locate path = .ok location) :
    tree.isDirectory location.dropLast := by
  rw [locate] at hlocate
  split_ifs at hlocate
  exact isDirectory_dropLast_of_follow (tree.isDirectory_origin path) hlocate

/-- Trees in which paths begin in the same place and meet the same directories. -/
structure SameDirectories (tree tree' : FileTree) : Prop where
  workingDirectory : tree'.workingDirectory = tree.workingDirectory
  isDirectory : ∀ location, tree'.isDirectory location = tree.isDirectory location

namespace SameDirectories

theorem symm (hsame : SameDirectories tree tree') : SameDirectories tree' tree :=
  ⟨hsame.workingDirectory.symm, fun location => (hsame.isDirectory location).symm⟩

theorem follow (hsame : SameDirectories tree tree') {here : Location} {parts : List String}
    (hfollow : tree.follow here parts = .ok location) :
    tree'.follow here parts = .ok location := by
  induction parts generalizing here with
  | nil => exact hfollow
  | cons part rest ih =>
      rw [FileTree.follow] at hfollow ⊢
      simp only [hsame.isDirectory] at hfollow ⊢
      split_ifs at hfollow ⊢ <;> first | exact ih hfollow | exact hfollow

theorem locate (hsame : SameDirectories tree tree') (hlocate : tree.locate path = .ok location) :
    tree'.locate path = .ok location := by
  rw [FileTree.locate, origin] at hlocate ⊢
  rw [hsame.workingDirectory]
  split_ifs at hlocate ⊢ <;> exact hsame.follow hlocate

end SameDirectories

/-! Storing. -/

theorem lookup_filter_ne {files : List (Location × ByteArray)} (hne : other ≠ location) :
    (files.filter fun file => file.1 ≠ location).lookup other = files.lookup other := by
  induction files with
  | nil => rfl
  | cons file rest ih =>
      obtain ⟨place, content⟩ := file
      by_cases hplace : place = location
      · rw [List.filter_cons_of_neg (by simpa using hplace), ih, List.lookup_cons,
          beq_false_of_ne (hplace ▸ hne)]
      · rw [List.filter_cons_of_pos (by simpa using hplace), List.lookup_cons, List.lookup_cons, ih]

theorem find?_store (tree : FileTree) (location other : Location) (content : ByteArray) :
    (tree.store location content).find? other =
      if other = location then some content else tree.find? other := by
  rw [find?, store, List.lookup_cons]
  split_ifs with hsame
  · simp [hsame]
  · simp only [beq_false_of_ne hsame]
    exact lookup_filter_ne hsame

/-- A file stored in a directory leaves all directories as they are. -/
theorem isDirectory_store (hdir : tree.isDirectory location.dropLast) (other : Location) :
    (tree.store location content).isDirectory other = tree.isDirectory other := by
  rw [Bool.eq_iff_iff]
  constructor
  · intro hother
    rcases isDirectory_iff.mp hother with hup | ⟨file, hfile, hbelow, hlength⟩
    · exact isDirectory_iff.mpr (.inl hup)
    rcases List.mem_cons.mp hfile with rfl | hfile
    -- What lies above the new file lies above its directory or is that directory.
    · have hparent : other <+: location.dropLast := by
        apply List.prefix_of_prefix_length_le hbelow (List.dropLast_prefix location)
        simp at hlength ⊢
        omega
      exact isDirectory_of_isPrefix hparent hdir
    · exact isDirectory_iff.mpr (.inr ⟨file, (List.mem_filter.mp hfile).1, hbelow, hlength⟩)
  · intro hother
    rcases isDirectory_iff.mp hother with hup | ⟨file, hfile, hbelow, hlength⟩
    · exact isDirectory_iff.mpr (.inl hup)
    apply isDirectory_iff.mpr
    right
    -- The file that makes it a directory may be the one that is replaced.
    by_cases hsame : file.1 = location
    · exact ⟨(location, content), List.mem_cons_self, hsame ▸ hbelow, hsame ▸ hlength⟩
    · exact ⟨file, List.mem_cons_of_mem _ (List.mem_filter.mpr ⟨hfile, by simpa using hsame⟩),
        hbelow, hlength⟩

/-! Reading and writing. -/

theorem read_eq_ok_iff : tree.read path = .ok content ↔
    ∃ location, tree.locate path = .ok location ∧ tree.find? location = some content := by
  rw [read]
  cases tree.locate path with
  | error fault => simp [bind, Except.bind]
  | ok location =>
      cases hfind : tree.find? location with
      | none => simp [bind, Except.bind, throw, throwThe, MonadExceptOf.throw, hfind]
      | some old => simp [bind, Except.bind, pure, Except.pure, hfind]

/-- A path leads to a location where a file is or can be. -/
structure WritableAt (tree : FileTree) (path : String) (location : Location) : Prop where
  withoutSlashes_eq : withoutSlashes path = path
  locate_eq : tree.locate path = .ok location
  isDirectory_eq : tree.isDirectory location = false

theorem write_eq_ok_iff : tree.write path content = .ok tree' ↔
    ∃ location, tree.WritableAt path location ∧ tree.store location content = tree' := by
  have hwrite : tree.write path content = (tree.locate (withoutSlashes path)).bind fun location =>
      if withoutSlashes path ≠ path ∨ tree.isDirectory location then .error .isDirectory
      else .ok (tree.store location content) := rfl
  rw [hwrite]
  constructor
  · intro hok
    cases hlocate : tree.locate (withoutSlashes path) with
    | error fault => simp [hlocate, Except.bind] at hok
    | ok location =>
        rw [hlocate, Except.bind] at hok
        split_ifs at hok with hrefused
        rw [not_or, not_not, Bool.not_eq_true] at hrefused
        obtain ⟨hslashes, hfile⟩ := hrefused
        exact ⟨location, ⟨hslashes, hslashes ▸ hlocate, hfile⟩, Except.ok.inj hok⟩
  · rintro ⟨location, ⟨hslashes, hlocate, hfile⟩, rfl⟩
    simp [hslashes, hlocate, hfile, Except.bind]

namespace WritableAt

theorem write_eq (hpath : tree.WritableAt path location) (content : ByteArray) :
    tree.write path content = .ok (tree.store location content) :=
  write_eq_ok_iff.mpr ⟨location, hpath, rfl⟩

theorem sameDirectories (hpath : tree.WritableAt path location) (content : ByteArray) :
    SameDirectories tree (tree.store location content) :=
  ⟨rfl, isDirectory_store (isDirectory_dropLast_of_locate hpath.locate_eq)⟩

/-- Paths lead where they led before a write. -/
theorem locate_store_eq_ok_iff (hpath : tree.WritableAt path location) {place : String} :
    (tree.store location content).locate place = .ok other ↔ tree.locate place = .ok other :=
  ⟨(hpath.sameDirectories content).symm.locate, (hpath.sameDirectories content).locate⟩

/-- A write leaves the same paths writable. -/
theorem store_iff (hpath : tree.WritableAt path location) (content : ByteArray)
    {place : String} :
    (tree.store location content).WritableAt place other ↔ tree.WritableAt place other := by
  constructor
  · rintro ⟨hslashes, hlocate, hfile⟩
    exact ⟨hslashes, hpath.locate_store_eq_ok_iff.mp hlocate,
      (hpath.sameDirectories content).isDirectory other ▸ hfile⟩
  · rintro ⟨hslashes, hlocate, hfile⟩
    exact ⟨hslashes, hpath.locate_store_eq_ok_iff.mpr hlocate,
      ((hpath.sameDirectories content).isDirectory other).trans hfile⟩

theorem read_store (hpath : tree.WritableAt path location) (content : ByteArray) :
    (tree.store location content).read path = .ok content :=
  read_eq_ok_iff.mpr ⟨location, hpath.locate_store_eq_ok_iff.mpr hpath.locate_eq,
    by rw [find?_store, if_pos rfl]⟩

theorem read_store_of_ne (hpath : tree.WritableAt path location) {place : String}
    (hne : tree.locate place ≠ .ok location) {old : ByteArray}
    (hread : tree.read place = .ok old) :
    (tree.store location content).read place = .ok old := by
  obtain ⟨other, hlocate, hfind⟩ := read_eq_ok_iff.mp hread
  have hother : other ≠ location := by
    intro hsame
    exact hne (hsame ▸ hlocate)
  exact read_eq_ok_iff.mpr ⟨other, hpath.locate_store_eq_ok_iff.mpr hlocate,
    by rw [find?_store, if_neg hother, hfind]⟩

end WritableAt

/-- Trees with the same files, but for those that some paths lead to in the first. -/
def AgreesOutside (paths : List String) (tree tree' : FileTree) : Prop :=
  ∀ location, (∀ path ∈ paths, tree.locate path ≠ .ok location) →
    tree'.find? location = tree.find? location

theorem AgreesOutside.refl (paths : List String) (tree : FileTree) :
    AgreesOutside paths tree tree :=
  fun _ _ => rfl

theorem AgreesOutside.store {paths : List String} (hagree : AgreesOutside paths tree tree')
    (hmem : path ∈ paths) (hpath : tree.WritableAt path location) (content : ByteArray) :
    AgreesOutside paths tree (tree'.store location content) := by
  intro other houtside
  have hne : other ≠ location := by
    intro hsame
    exact houtside path hmem (hsame ▸ hpath.locate_eq)
  rw [find?_store, if_neg hne, hagree other houtside]

end FileTree

end LittleComputer.Tool
