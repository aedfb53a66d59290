import Mathlib.Data.List.Infix
import Vespera.Klib.Path

/-! # Paths are resolved lexically

The textbook form of what `resolve_path` computes: the components of the root or of the working
directory and those of the path, without `.`, and with `..` taking one back. On paths that fit into
its buffers the source agrees with it (`paths_resolved`): `normalize_path` keeps every component on
its stack, and the comparison of texts with the root is one of components.
-/

namespace Vespera.Klib

open List

/-- The components that are left when `.` is ignored and `..` takes one component back. -/
def lexical (segments : List Str) : List Str := segments.foldl finishComponent []

/-- The path that `resolve_path` normalises. -/
def joinPath (root cwd userPath : Str) : Str :=
  if userPath.head? ≠ some '/' then
    if cwd = ['/'] then '/' :: userPath else cwd ++ '/' :: userPath
  else if root = ['/'] then userPath else root ++ userPath

/-- Its components, for a root and a working directory in normal form. -/
def joinSegs (rs cs : List Str) (userPath : Str) : List Str :=
  (if userPath.head? = some '/' then rs else cs) ++ pathSegments userPath []

section Lexical

variable {rs cs l : List Str} {userPath : Str}

theorem pathSegments_joinPath (hrs : ∀ c ∈ rs, PlainName c) (hcs : ∀ c ∈ cs, PlainName c) :
    pathSegments (joinPath (absPath rs) (absPath cs) userPath) [] = joinSegs rs cs userPath := by
  unfold joinPath joinSegs
  have hslash : pathSegments ('/' :: userPath) [] = pathSegments userPath [] := rfl
  by_cases habs : userPath.head? = some '/'
  · rw [if_neg (not_not.mpr habs), if_pos habs]
    split
    · next hroot =>
      rw [← pathSegments_absPath hrs, hroot]
      rfl
    · rw [pathSegments_append _ _ _ (.inr habs), pathSegments_absPath hrs]
  rw [if_pos habs, if_neg habs]
  split
  · next hcwd =>
    rw [← pathSegments_absPath hcs, hcwd]
    rfl
  · rw [pathSegments_append _ _ _ (.inr rfl), pathSegments_absPath hcs, hslash]

/-- The stack of `normalize_path` is the lexical normal form if it never overflows. -/
theorem foldl_pushSegment {acc : List Str} (hlen : ∀ c ∈ l, c.length < 64)
    (hdepth : ∀ p, p <+: l → (p.foldl finishComponent acc).length ≤ 16) :
    l.foldl pushSegment acc = l.foldl finishComponent acc := by
  induction l generalizing acc with
  | nil => rfl
  | cons s l ih =>
    have hpush : pushSegment acc s = finishComponent acc s := by
      have hfull := hdepth [s] ⟨l, rfl⟩
      simp only [foldl_cons, foldl_nil] at hfull
      unfold pushSegment finishComponent at *
      split_ifs at hfull ⊢ with hdot hdots hroom
      · rfl
      · rfl
      · rfl
      · refine absurd ⟨?_, hlen s (by simp)⟩ hroom
        rwa [length_append, length_singleton] at hfull
    rw [foldl_cons, foldl_cons, hpush]
    refine ih (fun c hc => hlen c (mem_cons_of_mem s hc)) fun p hp => ?_
    exact hdepth (s :: p) (cons_prefix_cons.mpr ⟨rfl, hp⟩)

/-- The output loop writes everything exactly if there is room. -/
theorem joinSegments_fits_iff {n : Nat} {sep : Bool} {out : Str} (hl : ∀ c ∈ l, c ≠ [])
    (hout : out.length + 2 < n) :
    joinSegments n l sep out = out ++ (if l = [] then [] else cond sep ['/'] [] ++ relPath l) ↔
      (out ++ if l = [] then [] else cond sep ['/'] [] ++ relPath l).length + 2 < n := by
  induction l generalizing sep out with
  | nil => simp [joinSegments, hout]
  | cons s l ih =>
    have htext : out ++ (cond sep ['/'] [] ++ relPath (s :: l)) =
        (if sep then out ++ ['/'] else out) ++ s ++ if l = [] then [] else ['/'] ++ relPath l := by
      rw [relPath_cons]
      cases sep <;> simp
    rw [joinSegments, if_neg (cons_ne_nil s l), htext]
    generalize (if sep then out ++ ['/'] else out) = out'
    split
    · next hfull =>
      have hpos := length_pos_iff.mpr (hl s mem_cons_self)
      refine ⟨fun heq => ?_, fun hlt => ?_⟩
      · have hlen := congrArg length heq
        rw [length_append, length_append] at hlen
        omega
      · rw [length_append, length_append] at hlt
        omega
    · next hroom =>
      refine ih (fun c hc => hl c (mem_cons_of_mem s hc)) ?_
      rw [length_append]
      omega

theorem joinSegments_absPath_iff {n : Nat} (hl : ∀ c ∈ l, c ≠ []) (hn : 3 < n) :
    joinSegments n l false ['/'] = absPath l ↔ (absPath l).length + 2 < n := by
  have htext : absPath l = ['/'] ++ if l = [] then [] else cond false ['/'] [] ++ relPath l := by
    cases l <;> rfl
  rw [htext]
  exact joinSegments_fits_iff hl hn

/-- A path in normal form does not end with a slash. -/
theorem stripRoot_absPath (h : ∀ c ∈ rs, PlainName c) : stripRoot (absPath rs) = absPath rs := by
  refine if_neg ?_
  rintro ⟨hlen, hlast⟩
  rcases eq_nil_or_concat rs with rfl | ⟨rs, c, rfl⟩
  · exact absurd hlen (by decide)
  rw [concat_eq_append] at hlast
  -- the last character is one of the last component
  have hc := h c (by simp)
  have hend : ∃ a, absPath (rs ++ [c]) = a ++ c := by
    by_cases hrs : rs = []
    · exact ⟨['/'], by rw [hrs]; rfl⟩
    · refine ⟨absPath rs ++ ['/'], ?_⟩
      rw [absPath, relPath_append hrs]
      simp [absPath, relPath]
  obtain ⟨a, ha⟩ := hend
  have hc' : c.getLast? = some '/' := by
    rw [ha, getLast?_append] at hlast
    rwa [getLast?_eq_some_getLast hc.ne_nil] at hlast ⊢
  exact hc.no_slash (mem_of_getLast? hc')

theorem absPath_of_prefix (hin : rs <+: cs) (hne : rs ≠ []) :
    ∃ rest, absPath cs = absPath rs ++ rest ∧ (rest = [] ∨ rest.head? = some '/') := by
  obtain ⟨l, rfl⟩ := hin
  refine ⟨if l = [] then [] else '/' :: relPath l, ?_, ?_⟩
  · rw [absPath, relPath_append hne]
    rfl
  · split_ifs
    · exact .inl rfl
    · exact .inr rfl

theorem length_absPath_le (hin : rs <+: cs) : (absPath rs).length ≤ (absPath cs).length := by
  by_cases hne : rs = []
  · simp [hne, absPath, relPath]
  · obtain ⟨rest, heq, -⟩ := absPath_of_prefix hin hne
    simp [heq]

/-- Paths that are joined within the buffers are resolved lexically, and refused if they lead out of
the root. -/
theorem paths_resolved (hcs : ∀ c ∈ cs, PlainName c) (hin : rs <+: cs) (hne : userPath ≠ [])
    (hjoin : (joinPath (absPath rs) (absPath cs) userPath).length ≤ 255)
    (hlen : ∀ c ∈ joinSegs rs cs userPath, c.length < 64)
    (hdepth : ∀ p, p <+: joinSegs rs cs userPath → (lexical p).length ≤ 16)
    (hout : (absPath (lexical (joinSegs rs cs userPath))).length ≤ 240) :
    let answer : Except Error Str :=
      if rs <+: lexical (joinSegs rs cs userPath) then
        .ok (absPath (lexical (joinSegs rs cs userPath)))
      else .error .acces
    resolvePath (some (absPath rs, absPath cs)) userPath 256 = answer ∧
      resolvePathAt (some (absPath rs)) (absPath cs) userPath 256 = answer := by
  suffices h : resolvePath (some (absPath rs, absPath cs)) userPath 256 = _ from ⟨h, h⟩
  have hrs : ∀ c ∈ rs, PlainName c := fun c hc => hcs c (hin.subset hc)
  have hlong : (absPath rs).length ≤ 255 := by
    have hle := length_absPath_le hin
    unfold joinPath at hjoin
    split_ifs at hjoin with hrel hcwd hroot
    · simp only [hcwd, length_singleton] at hle
      omega
    all_goals simp_all only [length_append, length_singleton]; omega
  have hstack := foldl_pushSegment hlen hdepth
  generalize hlex : lexical (joinSegs rs cs userPath) = lex at hout ⊢
  rw [← lexical, hlex] at hstack
  have hplain : ∀ c ∈ lex, PlainName c := by
    rw [← hstack, ← pathSegments_joinPath hrs hcs]
    exact foldl_pushSegment_plain (by simp) (pathSegments_mem _ _ (by simp))
  have hnorm : normalizePath ((joinPath (absPath rs) (absPath cs) userPath).take 255) 256 =
      absPath lex := by
    rw [take_of_length_le hjoin, normalizePath, pathSegments_joinPath hrs hcs, hstack]
    exact (joinSegments_absPath_iff (fun c hc => (hplain c hc).ne_nil) (by decide)).mpr (by omega)
  rw [resolvePath, if_neg (by simp [hne])]
  dsimp only
  rw [if_neg (show absPath rs ≠ [] from cons_ne_nil _ _),
    if_neg (show absPath cs ≠ [] from cons_ne_nil _ _), ← joinPath, hnorm, take_of_length_le hlong,
    stripRoot_absPath hrs, take_of_length_le (show _ ≤ 256 - 1 by omega)]
  by_cases hsub : rs <+: lex
  · rw [if_pos hsub, if_neg]
    rintro ⟨hslash, hbad⟩
    obtain ⟨rest, heq, hrest⟩ := absPath_of_prefix hsub (by rintro rfl; exact hslash rfl)
    rw [heq, take_left, drop_left] at hbad
    rcases hbad with hbad | ⟨hhead, hnil⟩
    · exact hbad rfl
    · exact hrest.elim hnil hhead
  · rw [if_neg hsub]
    refine if_pos (not_not.mp fun hpass => hsub ?_)
    have hbelow := segments_of_check hpass
    rwa [pathSegments_absPath hrs, pathSegments_absPath hplain] at hbelow

end Lexical

/-- A realm with the root `/jail` and the working directory `/jail/home`: a path with `..`, `.` and
empty components, and one that leads out. -/
theorem paths_resolved_jail :
    resolvePath (some ("/jail".toList, "/jail/home".toList)) "../etc/./x//..".toList 256 =
        .ok "/jail/etc".toList ∧
      resolvePathAt (some "/jail".toList) "/jail/home".toList "../../etc".toList 256 =
        .error .acces := by
  have hcs : ∀ c ∈ ["jail".toList, "home".toList], PlainName c := by decide
  have hin : ["jail".toList] <+: ["jail".toList, "home".toList] := by decide
  constructor
  · have hdepth : ∀ p ∈ (joinSegs ["jail".toList] ["jail".toList, "home".toList]
        "../etc/./x//..".toList).inits, (lexical p).length ≤ 16 := by decide
    refine (paths_resolved hcs hin (by decide) (by decide) (by decide)
      (fun p hp => hdepth p ((mem_inits _ _).mpr hp)) (by decide)).1.trans ?_
    exact (if_pos (by decide)).trans (congrArg Except.ok (by decide))
  · have hdepth : ∀ p ∈ (joinSegs ["jail".toList] ["jail".toList, "home".toList]
        "../../etc".toList).inits, (lexical p).length ≤ 16 := by decide
    refine (paths_resolved hcs hin (by decide) (by decide) (by decide)
      (fun p hp => hdepth p ((mem_inits _ _).mpr hp)) (by decide)).2.trans ?_
    exact if_neg (by decide)

/-- The empty path is refused, although it joins to the working directory. -/
theorem empty_path_refused :
    absPath (lexical (joinSegs [] [['a']] [])) = absPath [['a']] ∧
      resolvePath (some (absPath [], absPath [['a']])) [] 256 = .error .inval :=
  ⟨by decide, rfl⟩

end Vespera.Klib
