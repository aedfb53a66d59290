import Mathlib.Data.List.Basic
import Vespera.Klib.Result

/-! # Paths

`split_path` and `normalize_path` of `lib/path.cpp` and `VFS::resolve_path` of
`filesystem/vfs/vfs_helper.cpp`. A C string is the list of its characters
without the terminator; a fixed buffer shows up as the length at which the
source stops copying.
-/

namespace Vespera.Klib

open List

/-- A C string without its terminator. -/
abbrev Str := List Char

/-! ## split_path -/

/-- Close the current component: `.` is ignored, `..` takes one component
back, anything else is appended. -/
def finishComponent (components : List Str) (comp : Str) : List Str :=
  if comp = ['.'] then components
  else if comp = ['.', '.'] then components.dropLast
  else components ++ [comp]

/-- The scanning loop of `split_path`: the finished components and the (at most
31) characters of the current one. -/
def splitPathLoop (maxComponents : Nat) : Str → List Str → Str → List Str × Str
  | [], components, comp => (components, comp)
  | c :: rest, components, comp =>
    if components.length < maxComponents then
      if c = '/' then
        splitPathLoop maxComponents rest
          (if comp = [] then components else finishComponent components comp) []
      else
        splitPathLoop maxComponents rest components (if comp.length < 31 then comp ++ [c] else comp)
    else (components, comp)

/-- `split_path(path, components, max_components)`. -/
def splitPath (path : Str) (maxComponents : Nat) : List Str :=
  let (components, comp) := splitPathLoop maxComponents (path.dropWhile (· = '/')) [] []
  if comp ≠ [] ∧ components.length < maxComponents then finishComponent components comp
  else components

/-! ### Paths in normal form -/

/-- The components joined by single slashes. -/
def relPath : List Str → Str
  | [] => []
  | [c] => c
  | c :: d :: cs => c ++ '/' :: relPath (d :: cs)

/-- The absolute path with these components; `/` for none. -/
def absPath (cs : List Str) : Str := '/' :: relPath cs

/-- A name that stands for itself: not empty, without a slash, not `.` or `..`. -/
@[mk_iff] structure PlainName (c : Str) : Prop where
  ne_nil : c ≠ []
  no_slash : '/' ∉ c
  ne_dot : c ≠ ['.']
  ne_dots : c ≠ ['.', '.']

instance (c : Str) : Decidable (PlainName c) := decidable_of_iff' _ (plainName_iff c)

theorem relPath_cons {c : Str} {cs : List Str} :
    relPath (c :: cs) = c ++ (if cs = [] then [] else '/' :: relPath cs) := by
  cases cs with
  | nil => simp [relPath]
  | cons d cs => simp [relPath]

theorem finishComponent_plain {acc : List Str} {c : Str} (hc : PlainName c) :
    finishComponent acc c = acc ++ [c] := by
  unfold finishComponent
  rw [if_neg hc.ne_dot, if_neg hc.ne_dots]

theorem relPath_append {rs l : List Str} (hne : rs ≠ []) :
    relPath (rs ++ l) = relPath rs ++ if l = [] then [] else '/' :: relPath l := by
  induction rs with
  | nil => exact absurd rfl hne
  | cons c rs ih =>
    rw [cons_append, relPath_cons, relPath_cons]
    cases rs with
    | nil => simp
    | cons d rs =>
      rw [ih (cons_ne_nil d rs)]
      simp

/-! ## normalize_path -/

/-- The maximal runs of characters other than `/`. -/
def pathSegments : Str → Str → List Str
  | [], cur => if cur = [] then [] else [cur]
  | c :: rest, cur =>
    if c = '/' then (if cur = [] then pathSegments rest [] else cur :: pathSegments rest [])
    else pathSegments rest (cur ++ [c])

theorem pathSegments_name (c rest cur : Str) (hc : '/' ∉ c) :
    pathSegments (c ++ rest) cur = pathSegments rest (cur ++ c) := by
  induction c generalizing cur with
  | nil => simp
  | cons x c ih =>
    rw [mem_cons, not_or] at hc
    rw [cons_append, pathSegments, if_neg (Ne.symm hc.1), ih (cur ++ [x]) hc.2,
      append_assoc, singleton_append]

/-- The segments of a path in normal form are its components. -/
theorem pathSegments_relPath {cs : List Str} (h : ∀ c ∈ cs, c ≠ [] ∧ '/' ∉ c) :
    pathSegments (relPath cs) [] = cs := by
  induction cs with
  | nil => simp [relPath, pathSegments]
  | cons c cs ih =>
    obtain ⟨hne, hslash⟩ := h c (by simp)
    rw [relPath_cons, pathSegments_name c _ [] hslash, nil_append]
    split
    · rename_i hnil
      rw [pathSegments, if_neg hne, hnil]
    · rw [pathSegments, if_pos rfl, if_neg hne, ih fun d hd => h d (mem_cons_of_mem c hd)]

/-- The current segment is the beginning of the next one. -/
theorem pathSegments_cur (a : Str) {cur : Str} (hcur : cur ≠ []) :
    ∃ c l, pathSegments a cur = c :: l ∧ cur <+: c := by
  induction a generalizing cur with
  | nil => exact ⟨cur, [], by rw [pathSegments, if_neg hcur], prefix_rfl⟩
  | cons x a ih =>
    rw [pathSegments, if_neg hcur]
    split
    · exact ⟨cur, _, rfl, prefix_rfl⟩
    · obtain ⟨c, l, heq, hc⟩ := ih (concat_ne_nil x cur)
      exact ⟨c, l, heq, (prefix_append _ _).trans hc⟩

/-- The loop of `split_path` finds the segments, if they are names that fit. -/
theorem splitPathLoop_segments {m : Nat} (a : Str) {acc : List Str} {comp : Str}
    (hplain : ∀ c ∈ pathSegments a comp, PlainName c ∧ c.length ≤ 31)
    (hlen : acc.length + (pathSegments a comp).length ≤ m) :
    (let x := splitPathLoop m a acc comp
     if x.2 ≠ [] ∧ x.1.length < m then finishComponent x.1 x.2 else x.1) =
      acc ++ pathSegments a comp := by
  induction a generalizing acc comp with
  | nil =>
    rw [pathSegments] at hplain hlen ⊢
    rw [splitPathLoop]
    by_cases hcomp : comp = []
    · simp [hcomp]
    · rw [if_neg hcomp] at hplain hlen ⊢
      rw [length_singleton] at hlen
      rw [if_pos ⟨hcomp, hlen⟩, finishComponent_plain (hplain comp (by simp)).1]
  | cons x a ih =>
    rw [splitPathLoop]
    rw [pathSegments] at hplain hlen ⊢
    by_cases hx : x = '/'
    · rw [if_pos hx] at hplain hlen ⊢
      rw [if_pos hx]
      by_cases hcomp : comp = []
      · rw [if_pos hcomp] at hplain hlen ⊢
        rw [if_pos hcomp]
        by_cases hroom : acc.length < m
        · rw [if_pos hroom]
          exact ih hplain hlen
        · have hnone : pathSegments a [] = [] := length_eq_zero_iff.mp (by omega)
          rw [if_neg hroom, hnone]
          simp [hroom]
      · rw [if_neg hcomp] at hplain hlen ⊢
        rw [length_cons] at hlen
        have hroom : acc.length < m := by omega
        rw [if_pos hroom, if_neg hcomp, finishComponent_plain (hplain comp (by simp)).1,
          append_cons acc comp (pathSegments a [])]
        refine ih (fun c hc => hplain c (mem_cons_of_mem _ hc)) ?_
        rw [length_append, length_singleton]
        omega
    · rw [if_neg hx] at hplain hlen ⊢
      obtain ⟨c, l, heq, hc⟩ := pathSegments_cur a (concat_ne_nil x comp)
      have hle := hc.length_le
      have hc31 := (hplain c (by simp [heq])).2
      rw [length_append, length_singleton] at hle
      rw [heq, length_cons] at hlen
      have hroom : acc.length < m := by omega
      have hfits : comp.length < 31 := by omega
      rw [if_pos hroom, if_neg hx, if_pos hfits]
      exact ih hplain (by rw [heq, length_cons]; omega)

/-- `split_path` finds the segments of a path, if they are names that fit. -/
theorem splitPath_segments {m : Nat} {path : Str}
    (hplain : ∀ c ∈ pathSegments path [], PlainName c ∧ c.length ≤ 31)
    (hlen : (pathSegments path []).length ≤ m) : splitPath path m = pathSegments path [] := by
  have hskip : pathSegments (path.dropWhile (· = '/')) [] = pathSegments path [] := by
    induction path with
    | nil => rfl
    | cons x path ih =>
      by_cases hx : x = '/'
      · subst hx
        exact ih hplain hlen
      · simp [hx]
  have hloop := splitPathLoop_segments (path.dropWhile (· = '/')) (by rwa [hskip])
    (show ([] : List Str).length + _ ≤ m by rwa [hskip, length_nil, Nat.zero_add])
  rwa [hskip, nil_append] at hloop

theorem pathSegments_absPath {cs : List Str} (h : ∀ c ∈ cs, PlainName c) :
    pathSegments (absPath cs) [] = cs := by
  rw [absPath, pathSegments, if_pos rfl, if_pos rfl]
  exact pathSegments_relPath fun c hc => ⟨(h c hc).ne_nil, (h c hc).no_slash⟩

/-- `split_path` gives back the components of a path in normal form, if they fit. -/
theorem splitPath_absPath {m : Nat} {cs : List Str}
    (hplain : ∀ c ∈ cs, PlainName c ∧ c.length ≤ 31) (hlen : cs.length ≤ m) :
    splitPath (absPath cs) m = cs := by
  have hsegs := pathSegments_absPath fun c hc => (hplain c hc).1
  rw [splitPath_segments (by rwa [hsegs]) (by rwa [hsegs]), hsegs]

/-- One turn of the loop of `normalize_path`: at most 16 segments of at most 63
characters are kept. -/
def pushSegment (segments : List Str) (s : Str) : List Str :=
  if s = ['.'] then segments
  else if s = ['.', '.'] then segments.dropLast
  else if segments.length < 16 ∧ s.length < 64 then segments ++ [s]
  else segments

/-- The output loop of `normalize_path`, which gives up at the end of the
buffer. The flag says whether a separator is due. -/
def joinSegments (outSize : Nat) : List Str → Bool → Str → Str
  | [], _, out => out
  | s :: rest, sep, out =>
    let out := if sep then out ++ ['/'] else out
    if out.length + s.length + 2 ≥ outSize then out
    else joinSegments outSize rest true (out ++ s)

/-- `normalize_path(in, out, out_size)`. -/
def normalizePath (path : Str) (outSize : Nat) : Str :=
  joinSegments outSize ((pathSegments path []).foldl pushSegment []) false ['/']

/-! ## VFS::resolve_path -/

/-- Drop one trailing slash of a root path other than `/`. -/
def stripRoot (root : Str) : Str :=
  if root.length > 1 ∧ root.getLast? = some '/' then root.dropLast else root

/-- `VFS::resolve_path` for a realm with the given root and working directory;
`none` when there is no current realm. -/
def resolvePath (realm : Option (Str × Str)) (userPath : Str) (outSize : Nat) :
    Except Error Str :=
  if userPath = [] ∨ outSize = 0 then .error .inval
  else match realm with
  | none => .error .srch
  | some (rootPath, cwdPath) =>
    let root := if rootPath = [] then ['/'] else rootPath
    let cwd := if cwdPath = [] then root else cwdPath
    let joined :=
      if userPath.head? ≠ some '/' then
        if cwd = ['/'] then '/' :: userPath else cwd ++ '/' :: userPath
      else if root = ['/'] then userPath else root ++ userPath
    let normalized := normalizePath (joined.take 255) 256
    let rootCmp := stripRoot (root.take 255)
    if rootCmp ≠ ['/'] ∧
        (normalized.take rootCmp.length ≠ rootCmp ∨
          ((normalized.drop rootCmp.length).head? ≠ some '/' ∧
            (normalized.drop rootCmp.length) ≠ [])) then
      .error .acces
    else .ok (normalized.take (outSize - 1))

/-- `VFS::resolve_path_at`: the base stands in for the working directory. -/
def resolvePathAt (rootPath : Option Str) (basePath userPath : Str) (outSize : Nat) :
    Except Error Str :=
  resolvePath (rootPath.map fun root => (root, basePath)) userPath outSize

/-! ## Containment -/

/-- The path is absolute, without `.` and `..`, and its components begin with those of the root. -/
@[mk_iff] structure Inside (root path : Str) : Prop where
  absolute : path.head? = some '/'
  plain : ∀ c ∈ pathSegments path [], PlainName c
  below : pathSegments root [] <+: pathSegments path []

instance (root path : Str) : Decidable (Inside root path) :=
  decidable_of_iff' _ (inside_iff root path)

theorem Inside.of_below {root root' path : Str} (h : Inside root' path)
    (hroot : pathSegments root [] <+: pathSegments root' []) : Inside root path :=
  ⟨h.absolute, h.plain, hroot.trans h.below⟩

/-- A path that ends at a slash or at the end of the text has its own segments. -/
theorem pathSegments_append (a b cur : Str) (hb : b = [] ∨ b.head? = some '/') :
    pathSegments (a ++ b) cur = pathSegments a cur ++ pathSegments b [] := by
  induction a generalizing cur with
  | nil =>
    rw [nil_append, pathSegments]
    rcases hb with rfl | hb
    · simp [pathSegments]
    · obtain ⟨b', rfl⟩ := head?_eq_some_iff.mp hb
      simp only [pathSegments, if_true]
      split <;> simp
  | cons c a ih =>
    rw [cons_append, pathSegments, pathSegments]
    split
    · split
      · exact ih []
      · rw [ih [], cons_append]
    · exact ih (cur ++ [c])

theorem pathSegments_slash {a : Str} : pathSegments (a ++ ['/']) [] = pathSegments a [] := by
  rw [pathSegments_append a ['/'] [] (.inr rfl)]
  simp [pathSegments]

/-- The segments are not empty and have no slash. -/
theorem pathSegments_mem (a cur : Str) (hcur : '/' ∉ cur) :
    ∀ c ∈ pathSegments a cur, c ≠ [] ∧ '/' ∉ c := by
  induction a generalizing cur with
  | nil =>
    intro c hc
    rw [pathSegments] at hc
    split at hc
    · cases hc
    · obtain rfl := mem_singleton.mp hc
      exact ⟨by assumption, hcur⟩
  | cons x a ih =>
    intro c hc
    rw [pathSegments] at hc
    have hnil := ih [] (by simp)
    split at hc
    · split at hc
      · exact hnil c hc
      · rcases mem_cons.mp hc with rfl | hc
        · exact ⟨by assumption, hcur⟩
        · exact hnil c hc
    next hx =>
    refine ih (cur ++ [x]) ?_ c hc
    intro hmem
    rcases mem_append.mp hmem with hmem | hmem
    · exact hcur hmem
    · exact hx (mem_singleton.mp hmem).symm

theorem pushSegment_plain {segments : List Str} {s : Str} (h : ∀ c ∈ segments, PlainName c)
    (hs : s ≠ [] ∧ '/' ∉ s) : ∀ c ∈ pushSegment segments s, PlainName c := by
  intro c hc
  unfold pushSegment at hc
  split at hc
  · exact h c hc
  next hdot =>
    split at hc
    · exact h c ((dropLast_sublist segments).subset hc)
    next hdots =>
      split at hc
      · rcases mem_append.mp hc with hc | hc
        · exact h c hc
        · obtain rfl := mem_singleton.mp hc
          exact ⟨hs.1, hs.2, hdot, hdots⟩
      · exact h c hc

theorem foldl_pushSegment_plain {l acc : List Str} (hacc : ∀ c ∈ acc, PlainName c)
    (hl : ∀ c ∈ l, c ≠ [] ∧ '/' ∉ c) : ∀ c ∈ l.foldl pushSegment acc, PlainName c := by
  induction l generalizing acc with
  | nil => exact hacc
  | cons s l ih =>
    exact ih (pushSegment_plain hacc (hl s (by simp))) fun c hc => hl c (mem_cons_of_mem s hc)

/-- The output loop adds to what is there. -/
theorem joinSegments_prefix (outSize : Nat) (l : List Str) (sep : Bool) (out : Str) :
    out <+: joinSegments outSize l sep out := by
  induction l generalizing sep out with
  | nil => exact prefix_rfl
  | cons s l ih =>
    rw [joinSegments]
    have hout : out <+: if sep then out ++ ['/'] else out := by
      split
      · exact prefix_append _ _
      · exact prefix_rfl
    generalize (if sep then out ++ ['/'] else out) = out' at hout
    split
    · exact hout
    · exact (hout.trans (prefix_append _ _)).trans (ih true _)

/-- The segments of the output are those that were put in. -/
theorem joinSegments_plain {outSize : Nat} {l : List Str} (hl : ∀ c ∈ l, PlainName c) {sep : Bool}
    {out : Str} (hsep : sep = false → ∃ o, out = o ++ ['/'])
    (hout : ∀ c ∈ pathSegments out [], PlainName c) :
    ∀ c ∈ pathSegments (joinSegments outSize l sep out) [], PlainName c := by
  induction l generalizing sep out with
  | nil => exact hout
  | cons s l ih =>
    rw [joinSegments]
    -- the next segment starts after a slash
    obtain ⟨o, ho, hplain⟩ : ∃ o, (if sep then out ++ ['/'] else out) = o ++ ['/'] ∧
        ∀ c ∈ pathSegments o [], PlainName c := by
      cases sep with
      | true => exact ⟨out, rfl, hout⟩
      | false =>
        obtain ⟨o, rfl⟩ := hsep rfl
        rw [pathSegments_slash] at hout
        exact ⟨o, rfl, hout⟩
    rw [ho]
    split
    · rw [pathSegments_slash]
      exact hplain
    refine ih (fun c hc => hl c (mem_cons_of_mem s hc)) (fun h => nomatch h) ?_
    have hs := hl s (by simp)
    have hone : pathSegments (absPath [s]) [] = [s] := pathSegments_absPath (by simpa using hs)
    rw [append_assoc, singleton_append, pathSegments_append o _ [] (.inr rfl)]
    intro c hc
    rcases mem_append.mp (hone ▸ hc) with hc | hc
    · exact hplain c hc
    · obtain rfl := mem_singleton.mp hc
      exact hs

theorem joinSegments_length {outSize : Nat} {l : List Str} {sep : Bool} {out : Str}
    (hout : out.length + 2 + sep.toNat ≤ outSize) :
    (joinSegments outSize l sep out).length + 2 ≤ outSize := by
  induction l generalizing sep out with
  | nil =>
    rw [joinSegments]
    omega
  | cons s l ih =>
    rw [joinSegments]
    have hlen : (if sep then out ++ ['/'] else out).length = out.length + sep.toNat := by
      cases sep <;> simp
    generalize (if sep then out ++ ['/'] else out) = out' at hlen
    split
    · omega
    · refine ih ?_
      rw [length_append, Bool.toNat_true]
      omega

/-- What `normalize_path` writes: an absolute path without `.` and `..`. -/
theorem normalizePath_spec (path : Str) {outSize : Nat} (h : 3 ≤ outSize) :
    (normalizePath path outSize).head? = some '/' ∧
      (∀ c ∈ pathSegments (normalizePath path outSize) [], PlainName c) ∧
      (normalizePath path outSize).length + 2 ≤ outSize := by
  unfold normalizePath
  refine ⟨?_, ?_, joinSegments_length (by simpa using h)⟩
  · obtain ⟨t, ht⟩ := joinSegments_prefix outSize ((pathSegments path []).foldl pushSegment [])
      false ['/']
    rw [← ht]
    rfl
  · refine joinSegments_plain ?_ (fun _ => ⟨[], rfl⟩) (by simp [pathSegments])
    exact foldl_pushSegment_plain (by simp) (pathSegments_mem path [] (by simp))

theorem pathSegments_stripRoot {root : Str} :
    pathSegments (stripRoot root) [] = pathSegments root [] := by
  unfold stripRoot
  split
  · next h =>
    obtain ⟨o, rfl⟩ := getLast?_eq_some_iff.mp h.2
    rw [dropLast_concat, pathSegments_slash]
  · rfl

/-- What the check of `resolve_path` lets through begins with the components of the root. -/
theorem segments_of_check {root out : Str} (h : ¬ (root ≠ ['/'] ∧ (out.take root.length ≠ root ∨
      ((out.drop root.length).head? ≠ some '/' ∧ out.drop root.length ≠ [])))) :
    pathSegments root [] <+: pathSegments out [] := by
  by_cases hslash : root = ['/']
  · rw [hslash]
    exact nil_prefix
  -- the text goes on with a slash or ends
  have hpre : out.take root.length = root := by
    by_contra hne
    exact h ⟨hslash, .inl hne⟩
  have hrest : out.drop root.length = [] ∨ (out.drop root.length).head? = some '/' := by
    by_contra hne
    rw [not_or] at hne
    exact h ⟨hslash, .inr ⟨hne.2, hne.1⟩⟩
  have hsplit : out = root ++ out.drop root.length := by
    conv_lhs => rw [← take_append_drop root.length out, hpre]
  rw [hsplit, pathSegments_append root _ [] hrest]
  exact prefix_append _ _

/-- What `resolve_path` returns lies inside of the root, whatever the working directory. -/
theorem resolvePath_inside {root cwd userPath out : Str} (hroot : root.length ≤ 255)
    (h : resolvePath (some (root, cwd)) userPath 256 = .ok out) :
    Inside root out ∧ out.length ≤ 255 := by
  unfold resolvePath at h
  split at h
  · cases h
  dsimp only at h
  -- the root that the check uses has the components of the realm's root
  have hsegs : pathSegments (stripRoot ((if root = [] then ['/'] else root).take 255)) [] =
      pathSegments root [] := by
    rw [pathSegments_stripRoot]
    split
    · next hnil => simp [hnil, pathSegments]
    · rw [take_of_length_le hroot]
  generalize (if userPath.head? ≠ some '/' then _ else _ : Str) = joined at h
  generalize stripRoot ((if root = [] then ['/'] else root).take 255) = rootCmp at h hsegs
  obtain ⟨habs, hplain, hlen⟩ := normalizePath_spec (joined.take 255) (show 3 ≤ 256 by omega)
  generalize normalizePath (joined.take 255) 256 = normalized at h habs hplain hlen
  split at h
  · cases h
  next hcheck =>
    have hout : out = normalized := by
      rw [← Except.ok.inj h, take_of_length_le (by omega)]
    subst hout
    refine ⟨⟨habs, hplain, ?_⟩, by omega⟩
    rw [← hsegs]
    exact segments_of_check hcheck

theorem resolvePathAt_inside {root base userPath out : Str} (hroot : root.length ≤ 255)
    (h : resolvePathAt (some root) base userPath 256 = .ok out) :
    Inside root out ∧ out.length ≤ 255 :=
  resolvePath_inside hroot h

end Vespera.Klib
