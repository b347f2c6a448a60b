import ReplCore.Modules.Lookup
import ReplCore.Proofs.Values.Results

/-!
# The nearest module

A lookup goes through the directories from the nearest to the root, and in each of them through the
places that the path inside the package may stand for. Along a path without two dots that is not
absolute it gives the first hit, or one of the paths that it looks up is too long for the system.
An absolute path leads out of the package.

* `FileTree.reach_cases`: where a path without two dots leads.
* `LocalModule.find_nearest`: the first hit is found, and it lies in its package.
* `LocalModule.find_of_slash`: what is found behind two slashes is a file from the root.
-/

namespace ReplCore

namespace Text

variable {sep c : Char} {a b p q : Text} {ps qs : List Text}

theorem splitOn_cons_of_ne (h : c ≠ sep) (hb : splitOn sep b = q :: qs) :
    splitOn sep (c :: b) = (c :: q) :: qs := by
  rw [splitOn, if_neg h, hb]

theorem exists_splitOn_eq_concat (sep : Char) (t : Text) : ∃ ps p, splitOn sep t = ps ++ [p] :=
  ⟨_, _, (List.dropLast_concat_getLast (splitOn_ne_nil sep t)).symm⟩

/-- The last piece of a text and the first of the next one make up one piece. -/
theorem splitOn_append (ha : splitOn sep a = ps ++ [p]) (hb : splitOn sep b = q :: qs) :
    splitOn sep (a ++ b) = ps ++ (p ++ q) :: qs := by
  induction a generalizing ps p with
  | nil =>
    obtain ⟨rfl, rfl⟩ : ps = [] ∧ p = [] := by
      cases ps <;> simp_all [splitOn]
    exact hb
  | cons c a ih =>
    obtain ⟨ps', p', hps'⟩ := exists_splitOn_eq_concat sep a
    have hab := ih hps'
    by_cases hc : c = sep
    · rw [splitOn, if_pos hc, hps', ← List.cons_append] at ha
      obtain ⟨rfl, hp⟩ := List.append_inj' ha rfl
      rw [List.cons_append, splitOn, if_pos hc, hab, (List.cons.inj hp).1, List.cons_append]
    · cases ps' with
      | nil =>
        have hca : splitOn sep (c :: a) = [] ++ [c :: p'] := splitOn_cons_of_ne hc hps'
        obtain ⟨rfl, hp⟩ := List.append_inj' (hca.symm.trans ha) rfl
        rw [List.cons_append, splitOn_cons_of_ne hc hab, ← (List.cons.inj hp).1]
        rfl
      | cons p₀ ps' =>
        have hca : splitOn sep (c :: a) = (c :: p₀) :: ps' ++ [p'] := splitOn_cons_of_ne hc hps'
        obtain ⟨rfl, hp⟩ := List.append_inj' (hca.symm.trans ha) rfl
        rw [List.cons_append, splitOn_cons_of_ne hc hab, ← (List.cons.inj hp).1]
        rfl

theorem splitOn_append_cons (sep : Char) (a b : Text) :
    splitOn sep (a ++ sep :: b) = splitOn sep a ++ splitOn sep b := by
  obtain ⟨ps, p, ha⟩ := exists_splitOn_eq_concat sep a
  have hb : splitOn sep (sep :: b) = [] :: splitOn sep b := by rw [splitOn, if_pos rfl]
  rw [splitOn_append ha hb, ha, List.append_nil, List.append_assoc, List.singleton_append]

/-- A piece of two texts put together is one of theirs or made up of two of them. -/
theorem mem_splitOn_append {x : Text} (h : x ∈ splitOn sep (a ++ b)) :
    x ∈ splitOn sep a ∨ x ∈ splitOn sep b ∨
      ∃ p ∈ splitOn sep a, ∃ q ∈ splitOn sep b, x = p ++ q := by
  obtain ⟨ps, p, ha⟩ := exists_splitOn_eq_concat sep a
  obtain ⟨q, qs, hb⟩ := List.exists_cons_of_ne_nil (splitOn_ne_nil sep b)
  rw [splitOn_append ha hb] at h
  rw [ha, hb]
  rcases List.mem_append.1 h with hps | hqs
  · exact Or.inl (List.mem_append_left _ hps)
  · rcases List.mem_cons.1 hqs with rfl | hqs
    · exact Or.inr (Or.inr ⟨p, by simp, q, by simp, rfl⟩)
    · exact Or.inr (Or.inl (List.mem_cons_of_mem _ hqs))

end Text

namespace Path

/-- Whether the system looks the path up. -/
def Fits (p : Path) : Prop :=
  (String.ofList p.toText).utf8ByteSize < FileTree.pathSizeLimit ∧
    ∀ name ∈ p, (String.ofList name).utf8ByteSize ≤ FileTree.maxNameSize

instance (p : Path) : Decidable p.Fits := inferInstanceAs (Decidable (_ ∧ _))

theorem mem_upwards {p d : Path} : d ∈ p.upwards ↔ d <+: p := by
  simp only [upwards, List.mem_map, List.mem_reverse, List.mem_range]
  constructor
  · rintro ⟨n, -, rfl⟩
    exact List.take_prefix n p
  · intro h
    exact ⟨d.length, Nat.lt_succ_of_le h.length_le, (List.prefix_iff_eq_take.1 h).symm⟩

end Path

namespace FileTree

variable {t : FileTree} {p q path : Path}

theorem isDirectory_of_isPrefix (h : p <+: q) (hq : t.isDirectory q = true) :
    t.isDirectory p = true := by
  simp only [isDirectory, Bool.or_eq_true, List.isEmpty_iff, List.any_eq_true, Bool.and_eq_true,
    List.isPrefixOf_iff_prefix, decide_eq_true_eq] at hq ⊢
  rcases hq with (rfl | ⟨d, hd, hqd⟩) | ⟨f, hf, hqf, hlt⟩
  · exact Or.inl (Or.inl (List.prefix_nil.1 h))
  · exact Or.inl (Or.inr ⟨d, hd, h.trans hqd⟩)
  · exact Or.inr ⟨f, hf, h.trans hqf, Nat.lt_of_le_of_lt h.length_le hlt⟩

theorem isDirectory_of_isFile (h : p <+: q) (hlt : p.length < q.length) (hq : t.isFile q = true) :
    t.isDirectory p = true := by
  rw [isFile, contents?, Option.isSome_map] at hq
  obtain ⟨f, hfind⟩ := Option.isSome_iff_exists.1 hq
  have hf : f.1 = q := by simpa using List.find?_some hfind
  simp only [isDirectory, Bool.or_eq_true, List.any_eq_true, Bool.and_eq_true,
    List.isPrefixOf_iff_prefix, decide_eq_true_eq]
  exact Or.inr ⟨f, List.mem_of_find?_eq_some hfind, hf ▸ h, hf ▸ hlt⟩

/-- A walk without two dots leads to the place that the path names, or there is no such place, or a
name is too long. By induction on the path: once a directory is missing, so is everything in it. -/
theorem walk_cases (t : FileTree) (place : Path) (hdots : "..".toList ∉ path) :
    t.walk place path = .ok (some (place ++ path)) ∨
      t.walk place path = .ok none ∧ t.isDirectory (place ++ path) = false ∧
        t.isFile (place ++ path) = false ∨
      t.walk place path = .error .nameTooLong ∧
        ∃ name ∈ path, maxNameSize < (String.ofList name).utf8ByteSize := by
  induction path generalizing place with
  | nil => exact Or.inl (by rw [walk, List.append_nil])
  | cons name rest ih =>
    rw [List.mem_cons, not_or] at hdots
    have hprefix : place <+: place ++ name :: rest := List.prefix_append _ _
    by_cases hplace : t.isDirectory place = true
    · by_cases hsize : maxNameSize < (String.ofList name).utf8ByteSize
      · refine Or.inr (Or.inr ⟨?_, name, List.mem_cons_self, hsize⟩)
        rw [walk, hplace, if_neg (by decide), if_neg (Ne.symm hdots.1), if_pos hsize]
      · have hwalk : t.walk place (name :: rest) = t.walk (place ++ [name]) rest := by
          rw [walk, hplace, if_neg (by decide), if_neg (Ne.symm hdots.1), if_neg hsize]
        rw [hwalk, List.append_cons place name rest]
        rcases ih (place ++ [name]) hdots.2 with h | h | ⟨h, long, hlong, hsize⟩
        · exact Or.inl h
        · exact Or.inr (Or.inl h)
        · exact Or.inr (Or.inr ⟨h, long, List.mem_cons_of_mem _ hlong, hsize⟩)
    · have hwalk : t.walk place (name :: rest) = .ok none := by
        rw [walk, Bool.eq_false_iff.2 hplace, Bool.not_false, if_pos rfl]
      refine Or.inr (Or.inl ⟨hwalk, Bool.eq_false_iff.2 fun h => hplace ?_,
        Bool.eq_false_iff.2 fun h => hplace ?_⟩)
      · exact isDirectory_of_isPrefix hprefix h
      · exact isDirectory_of_isFile hprefix (by simp) h

theorem reach_cases (t : FileTree) (place : Path) (hdots : "..".toList ∉ path) :
    t.reach place path = .ok (some (place ++ path)) ∨
      t.reach place path = .ok none ∧ t.isDirectory (place ++ path) = false ∧
        t.isFile (place ++ path) = false ∨
      t.reach place path = .error .nameTooLong ∧ ¬ path.Fits := by
  rw [reach]
  split
  · next hsize => exact Or.inr (Or.inr ⟨rfl, fun hfits => Nat.not_lt.2 hsize hfits.1⟩)
  · rcases walk_cases t place hdots with h | h | ⟨h, name, hname, hsize⟩
    · exact Or.inl h
    · exact Or.inr (Or.inl h)
    · exact Or.inr (Or.inr ⟨h, fun hfits => Nat.not_le.2 hsize (hfits.2 name hname)⟩)

theorem follow_of_relative {written : Text} (h : written.head? ≠ some '/') :
    t.follow p written = t.reach p (Path.ofText written) := by
  rw [follow, Path.base, if_neg h]

theorem follow_of_absolute {written : Text} (h : written.head? = some '/') :
    t.follow p written = t.reach [] (Path.ofText written) := by
  rw [follow, Path.base, if_pos h]

/-- A walk without two dots that leads somewhere leads to the place that the path names. -/
theorem eq_of_reach (hdots : "..".toList ∉ path) (h : t.reach p path = .ok (some q)) :
    q = p ++ path := by
  rcases reach_cases t p hdots with h' | ⟨h', -, -⟩ | ⟨h', -⟩
  · exact Option.some.inj (Except.ok.inj (h.symm.trans h'))
  · exact nomatch h.symm.trans h'
  · exact nomatch h.symm.trans h'

end FileTree

namespace LocalModule

/-- What a search comes to: the first of the hits, or the system refuses a path. -/
inductive Answer (hits : List Path) (fits : Prop) : Except FileTree.Error (Option Path) → Prop
  | first : Answer hits fits (.ok hits.head?)
  | refused (h : ¬ fits) : Answer hits fits (.error .nameTooLong)

/-- The place of a package in a directory's own `node_modules`, whether it is there or not. -/
def packageIn (name : Text) (directory : Path) : Path :=
  directory ++ "node_modules".toList :: Path.ofText name

/-- The files in a package that a path inside it may stand for, in the order of the extensions. -/
def filesIn (t : FileTree) (package : Path) (subpath : Text) (extensions : List Text) : List Path :=
  (extensions.map fun e => package ++ Path.ofText (subpath ++ e)).filter (t.isFile ·)

/-- What a directory's own `node_modules` holds for a package and a path inside it. -/
def hitsIn (t : FileTree) (name subpath : Text) (directory : Path) : List Path :=
  let package := packageIn name directory
  if t.isDirectory package = false then []
  else if subpath.isEmpty then [package]
  else filesIn t package subpath extensions

/-- What the directory and those above it hold, nearest first. -/
def hits (t : FileTree) (name subpath : Text) (directory : Path) : List Path :=
  directory.upwards.flatMap (hitsIn t name subpath)

/-- Whether the system looks up every path that stands for a package or for a path inside it. -/
def Fits (name subpath : Text) : Prop :=
  Path.Fits ("node_modules".toList :: Path.ofText name) ∧
    ∀ e ∈ extensions, Path.Fits (Path.ofText (subpath ++ e))

instance (name subpath : Text) : Decidable (Fits name subpath) :=
  inferInstanceAs (Decidable (_ ∧ _))

section

variable {t : FileTree} {place directory D found : Path} {s name subpath e : Text} {es : List Text}
  {ds hs hs' : List Path} {fits : Prop} {r r' : Except FileTree.Error (Option Path)}

theorem length_of_mem_splitOn_extension :
    ∀ e ∈ extensions, ∀ q ∈ Text.splitOn '/' e, q = [] ∨ 2 < q.length := by
  decide

/-- An extension does not make two dots of a name that is not. -/
theorem dots_notMem_ofText (he : e ∈ extensions) (hdots : "..".toList ∉ Text.splitOn '/' subpath) :
    "..".toList ∉ Path.ofText (subpath ++ e) := by
  intro h
  rcases Text.mem_splitOn_append (List.mem_filter.1 h).1 with h | h | ⟨p, hp, q, hq, hpq⟩
  · exact hdots h
  · exact absurd (length_of_mem_splitOn_extension e he _ h) (by decide)
  · rcases length_of_mem_splitOn_extension e he q hq with rfl | hlength
    · exact hdots (by rwa [hpq, List.append_nil])
    · have hdotsLength : 2 = (p ++ q).length := congrArg List.length hpq
      rw [List.length_append] at hdotsLength
      omega

theorem filesIn_cons : filesIn t place subpath (e :: es) =
    if t.isFile (place ++ Path.ofText (subpath ++ e)) = true then
      (place ++ Path.ofText (subpath ++ e)) :: filesIn t place subpath es
    else filesIn t place subpath es :=
  List.filter_cons

theorem answer_fileIn (hdots : ∀ e ∈ es, "..".toList ∉ Path.ofText (subpath ++ e))
    (hslash : ∀ e ∈ es, (subpath ++ e).head? ≠ some '/')
    (hfits : fits → ∀ e ∈ es, Path.Fits (Path.ofText (subpath ++ e))) :
    Answer (filesIn t place subpath es) fits (fileIn t place subpath es) := by
  induction es with
  | nil => exact .first
  | cons e es ih =>
    rw [List.forall_mem_cons] at hdots hslash
    have hrest := ih hdots.2 hslash.2 fun h => (List.forall_mem_cons.1 (hfits h)).2
    rw [fileIn, FileTree.follow_of_relative hslash.1, filesIn_cons]
    rcases FileTree.reach_cases t place hdots.1 with h | ⟨h, -, hfile⟩ | ⟨h, hlong⟩
    · -- The path leads to a place, and that is a hit just if it is a file.
      rw [h]
      change Answer _ fits (if _ then .ok (some _) else _)
      split
      · exact .first
      · exact hrest
    · rw [h, hfile, if_neg (by decide)]
      exact hrest
    · rw [h]
      exact .refused fun hok => hlong (hfits hok e List.mem_cons_self)

theorem answer_within (hname : "..".toList ∉ Text.splitOn '/' name)
    (hdots : "..".toList ∉ Text.splitOn '/' subpath) (hslash : subpath.head? ≠ some '/')
    (hfits : fits → Fits name subpath) :
    Answer (hitsIn t name subpath D) fits (within t D name subpath) := by
  have hpath : "..".toList ∉ "node_modules".toList :: Path.ofText name := by
    rw [List.mem_cons, not_or]
    exact ⟨by decide, fun h => hname (List.mem_filter.1 h).1⟩
  rw [within, hitsIn, packageIn]
  rcases FileTree.reach_cases t D hpath with h | ⟨h, hdirectory, -⟩ | ⟨h, hlong⟩
  · rw [h]
    change Answer _ fits (if !t.isDirectory _ then .ok none else if _ then .ok (some _) else _)
    cases t.isDirectory (D ++ "node_modules".toList :: Path.ofText name) with
    | false => exact .first
    | true =>
      cases subpath with
      | nil => exact .first
      | cons c rest =>
        exact answer_fileIn (fun e he => dots_notMem_ofText he hdots) (fun _ _ => hslash)
          fun h => (hfits h).2
  · rw [h, if_pos hdirectory]
    exact .first
  · rw [h]
    exact .refused fun hok => hlong (hfits hok).1

theorem Answer.append (h : Answer hs fits r) (h' : Answer hs' fits r') :
    Answer (hs ++ hs') fits (do match ← r with | some found => return some found | none => r') := by
  cases h with
  | first =>
    cases hs with
    | nil => exact h'
    | cons p hs => exact .first
  | refused h => exact .refused h

theorem answer_firstWithin (t : FileTree) (ds : List Path)
    (hname : "..".toList ∉ Text.splitOn '/' name)
    (hdots : "..".toList ∉ Text.splitOn '/' subpath) (hslash : subpath.head? ≠ some '/') :
    Answer (ds.flatMap (hitsIn t name subpath)) (Fits name subpath)
      (firstWithin t name subpath ds) := by
  induction ds with
  | nil => exact .first
  | cons D ds ih =>
    rw [firstWithin, List.flatMap_cons]
    exact (answer_within hname hdots hslash id).append ih

theorem isDirectory_packageIn_of_mem_hitsIn (h : found ∈ hitsIn t name subpath D) :
    t.isDirectory (packageIn name D) = true := by
  rw [hitsIn] at h
  split at h
  · cases h
  · next hdirectory => exact (Bool.not_eq_false _).mp hdirectory

/-- What is found lies in its package. -/
theorem packageIn_isPrefix_of_mem_hitsIn (h : found ∈ hitsIn t name subpath D) :
    packageIn name D <+: found := by
  rw [hitsIn] at h
  split at h
  · cases h
  · split at h
    · exact List.mem_singleton.1 h ▸ List.prefix_rfl
    · obtain ⟨e, -, rfl⟩ := List.mem_map.1 (List.mem_filter.1 h).1
      exact List.prefix_append _ _

/-- The first hit comes from the nearest directory that has one. -/
theorem exists_of_head?_hits (h : (hits t name subpath directory).head? = some found) :
    ∃ nearer D farther, directory.upwards = nearer ++ D :: farther ∧
      (∀ D' ∈ nearer, hitsIn t name subpath D' = []) ∧
      (hitsIn t name subpath D).head? = some found := by
  rw [hits, List.head?_flatMap, List.findSome?_eq_some_iff] at h
  obtain ⟨nearer, D, farther, hupwards, hfound, hnearer⟩ := h
  exact ⟨nearer, D, farther, hupwards, fun D' hD' => List.head?_eq_none_iff.1 (hnearer D' hD'),
    hfound⟩

theorem answer_find (t : FileTree) (directory : Path)
    (hsplit : Specifier.splitPackage s = .ok (name, subpath))
    (hdots : "..".toList ∉ Text.splitOn '/' s) (hslash : subpath.head? ≠ some '/') :
    find t directory s = .ok (hits t name subpath directory).head? ∨
      find t directory s = .error (.system .nameTooLong) ∧ ¬ Fits name subpath := by
  obtain ⟨hname, hsubpath⟩ : "..".toList ∉ Text.splitOn '/' name ∧
      "..".toList ∉ Text.splitOn '/' subpath := by
    rcases Specifier.eq_of_splitPackage hsplit with ⟨rfl, rfl⟩ | rfl
    · exact ⟨hdots, by decide⟩
    · rwa [Text.splitOn_append_cons, List.mem_append, not_or] at hdots
  have h := answer_firstWithin t directory.upwards hname hsubpath hslash
  rw [← hits] at h
  simp only [find, hsplit]
  cases hfirst : firstWithin t name subpath directory.upwards with
  | ok found =>
    rw [hfirst] at h
    cases h
    exact Or.inl rfl
  | error e =>
    rw [hfirst] at h
    cases h with
    | refused h => exact Or.inr ⟨rfl, h⟩

/-- A lookup gives the first hit, from the nearest directory that has one, and it lies in the
package there; it gives nothing just if there is no hit. Only a path that is too long stands in the
way. The path inside the package must not begin with a slash, for then it is absolute and the place
of the package is dropped when the two are joined. -/
theorem find_nearest (t : FileTree) (directory : Path)
    (hsplit : Specifier.splitPackage s = .ok (name, subpath))
    (hdots : "..".toList ∉ Text.splitOn '/' s) (hslash : subpath.head? ≠ some '/') :
    (find t directory s = .ok (hits t name subpath directory).head? ∨
      find t directory s = .error (.system .nameTooLong) ∧ ¬ Fits name subpath) ∧
    (Fits name subpath → (find t directory s = .ok none ↔
      ∀ D, D <+: directory → hitsIn t name subpath D = [])) ∧
    ∀ found, find t directory s = .ok (some found) →
      ∃ nearer D farther, directory.upwards = nearer ++ D :: farther ∧
        (∀ D' ∈ nearer, hitsIn t name subpath D' = []) ∧
        (hitsIn t name subpath D).head? = some found ∧
        t.isDirectory (packageIn name D) = true ∧ packageIn name D <+: found := by
  have hanswer := answer_find t directory hsplit hdots hslash
  refine ⟨hanswer, fun hfits => ?_, fun found hfind => ?_⟩
  · rw [hanswer.resolve_right fun h => h.2 hfits, Except.ok.injEq, List.head?_eq_none_iff, hits,
      List.flatMap_eq_nil_iff]
    exact forall_congr' fun D => by rw [Path.mem_upwards]
  · have hfirst : (hits t name subpath directory).head? = some found := by
      rcases hanswer with h | ⟨h, -⟩
      · exact Except.ok.inj (h.symm.trans hfind)
      · exact nomatch h.symm.trans hfind
    obtain ⟨nearer, D, farther, hupwards, hnearer, hD⟩ := exists_of_head?_hits hfirst
    have hmem := List.mem_of_mem_head? hD
    exact ⟨nearer, D, farther, hupwards, hnearer, hD, isDirectory_packageIn_of_mem_hitsIn hmem,
      packageIn_isPrefix_of_mem_hitsIn hmem⟩

/-- A package without the file does not hide the one in a directory above. With a slash more the
file is not found, although it is a hit, and one outside of the package is, if it is there. -/
theorem find_nearest_above :
    let t : FileTree :=
      ⟨[(["src".toList, "node_modules".toList, "pkg".toList, "index.js".toList], ⟨#[]⟩),
        (["node_modules".toList, "pkg".toList, "lib".toList, "util.js".toList], ⟨#[]⟩)], []⟩
    let file := ["node_modules".toList, "pkg".toList, "lib".toList, "util.js".toList]
    let outside := ["lib".toList, "util.js".toList]
    find t ["src".toList] "pkg/lib/util".toList = .ok (some file) ∧
      find t ["src".toList] "pkg//lib/util.js".toList = .ok none ∧
      hits t "pkg".toList "/lib/util.js".toList ["src".toList] = [file] ∧
      find ⟨(outside, ⟨#[]⟩) :: t.files, []⟩ ["src".toList] "pkg//lib/util.js".toList =
        .ok (some outside) := by
  intro t file outside
  have hsplit : Specifier.splitPackage "pkg/lib/util".toList =
      .ok ("pkg".toList, "lib/util".toList) := rfl
  have hfits : Fits "pkg".toList "lib/util".toList := by decide
  have hhits : hits t "pkg".toList "lib/util".toList ["src".toList] = [file] := by decide
  have hfind := (find_nearest t ["src".toList] hsplit (by decide) (by decide)).1
  rw [hhits] at hfind
  exact ⟨hfind.resolve_right fun h => h.2 hfits, rfl, by decide, rfl⟩

/-! ## Outside of the package -/

theorem exists_of_fileIn (h : fileIn t place subpath es = .ok (some found)) :
    ∃ e ∈ es, t.follow place (subpath ++ e) = .ok (some found) ∧ t.isFile found = true := by
  induction es with
  | nil => cases h
  | cons e es ih =>
    rw [fileIn] at h
    obtain ⟨followed, hfollow, hrest⟩ := exists_of_bind_eq_ok h
    have hlater : fileIn t place subpath es = .ok (some found) →
        ∃ e' ∈ e :: es, t.follow place (subpath ++ e') = .ok (some found) ∧
          t.isFile found = true := fun h =>
      (ih h).imp fun e' he' => ⟨List.mem_cons_of_mem e he'.1, he'.2⟩
    cases followed with
    | none => exact hlater hrest
    | some q =>
      change (if t.isFile q = true then .ok (some q) else fileIn t place subpath es) = _ at hrest
      split at hrest
      · next hfile =>
        obtain rfl := Option.some.inj (Except.ok.inj hrest)
        exact ⟨e, List.mem_cons_self, hfollow, hfile⟩
      · exact hlater hrest

theorem exists_of_firstWithin (h : firstWithin t name subpath ds = .ok (some found)) :
    ∃ D ∈ ds, within t D name subpath = .ok (some found) := by
  induction ds with
  | nil => cases h
  | cons D ds ih =>
    rw [firstWithin] at h
    obtain ⟨held, hwithin, hrest⟩ := exists_of_bind_eq_ok h
    cases held with
    | none => exact (ih hrest).imp fun D' hD' => ⟨List.mem_cons_of_mem D hD'.1, hD'.2⟩
    | some q =>
      obtain rfl := Option.some.inj (Except.ok.inj hrest)
      exact ⟨D, List.mem_cons_self, hwithin⟩

/-- Behind two slashes a path is looked up from the root: what is found is the file that it names
there, whatever the packages hold. -/
theorem find_of_slash (hsplit : Specifier.splitPackage s = .ok (name, subpath))
    (hdots : "..".toList ∉ Text.splitOn '/' subpath) (hslash : subpath.head? = some '/')
    (h : find t directory s = .ok (some found)) :
    ∃ e ∈ extensions, found = Path.ofText (subpath ++ e) ∧ t.isFile found = true := by
  have hfirst : firstWithin t name subpath directory.upwards = .ok (some found) := by
    simp only [find, hsplit] at h
    split at h
    · cases h
    · next hfound => rw [hfound, Except.ok.inj h]
  obtain ⟨D, -, hwithin⟩ := exists_of_firstWithin hfirst
  obtain ⟨package, -, hrest⟩ := exists_of_bind_eq_ok hwithin
  have hfile : ∃ place, fileIn t place subpath extensions = .ok (some found) := by
    cases package with
    | none => cases hrest
    | some place =>
      have hne : subpath.isEmpty = false := by
        cases subpath with
        | nil => cases hslash
        | cons => rfl
      simp only [hne, Bool.false_eq_true, if_false] at hrest
      split at hrest
      · cases hrest
      · exact ⟨place, hrest⟩
  obtain ⟨place, hfile⟩ := hfile
  obtain ⟨e, he, hfollow, hisFile⟩ := exists_of_fileIn hfile
  have habsolute : (subpath ++ e).head? = some '/' := by
    rw [List.head?_append, hslash, Option.some_or]
  rw [FileTree.follow_of_absolute habsolute] at hfollow
  exact ⟨e, he, FileTree.eq_of_reach (dots_notMem_ofText he hdots) hfollow, hisFile⟩

end

end LocalModule

end ReplCore
