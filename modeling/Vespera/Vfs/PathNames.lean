import Vespera.Klib.Resolve
import Vespera.Vfs.Transparent

/-! # Which file a path stands for

Three routines cut a path into components: `normalize_path` keeps 16 of at most 63 bytes and stops
before the end of its buffer, and `split_path`, in `open` and in `resolve_parent`, keeps 16 and cuts
them at 31 bytes. None of them reports what it drops. So a path is taken for what it says exactly if
its names have at most 31 bytes, there are at most 16 of them, and the whole has at most 253 bytes.

What `open` then finds depends on the dentry cache, which is right as long as all calls are about
such paths in the root file system, or about mount points (`Safe`). Both are in `paths_apart_iff`.
-/

namespace Vespera.Vfs

open Klib List DentryCache

/-- The mount that `open` finds, and the names that it looks up there. -/
def lookedUp (mounts : List MountPoint) (path : Str) : Option (Nat × List Str) :=
  (bestMatch mounts path).map fun (i, mp) =>
    (i, splitPath (skipSlash (path.drop mp.path.length)) 16)

/-- `resolve_path` gives the path with these components as it is, and `split_path` in `open` and in
`resolve_parent` its components, whatever the mount table. -/
structure Exact (cs : List Str) : Prop where
  resolved : resolvePath (some (['/'], ['/'])) (absPath cs) 256 = .ok (absPath cs)
  split : splitPath (absPath cs) 16 = cs
  opened : ∀ st, lookedUp st.mounts (absPath cs) =
    (route st (absPath cs)).map fun (i, _, rest) => (i, rest)

/-- Neither of two paths is taken for the other, or for anything else. -/
structure Apart (cs cs' : List Str) : Prop where
  left : Exact cs
  right : Exact cs'
  opened : ∀ mounts x, lookedUp mounts (absPath cs) = some x → lookedUp mounts (absPath cs') ≠ some x

/-- The path is in the root file system, or it is a mount point. -/
def AtRoot (mounts : List MountPoint) (cs : List Str) : Prop :=
  ∀ i mp, bestMatch mounts (absPath cs) = some (i, mp) → mp.path = ['/'] ∨ mp.path = absPath cs

/-- `open` answers the node that the walk through the components gives, and `create` makes the last
name in the directory that the walk through those before it gives. -/
structure Finds (st : VfsSt) (cs : List Str) : Prop where
  opened : ∀ chan, (openPath st (absPath cs) chan).2 =
    (reference st (absPath cs)).bind (openChannel chan)
  created : ∀ parent name, cs = parent ++ [name] → ∀ chan node n,
    (resolveParent st (absPath cs) chan).2 = some (node, n) →
      n = name ∧ reference st (absPath parent) = .ok node

/-- The path fits into all of the buffers. -/
structure Fits (cs : List Str) : Prop where
  names : Names cs
  length : (absPath cs).length ≤ 253

variable {cs cs' : List Str} {path : Str}

/-! ## What the routines drop -/

theorem finishComponent_short {acc : List Str} {comp : Str} {m : Nat}
    (hacc : ∀ c ∈ acc, c.length ≤ 31) (hcomp : comp.length ≤ 31) (hlen : acc.length < m) :
    (∀ c ∈ finishComponent acc comp, c.length ≤ 31) ∧ (finishComponent acc comp).length ≤ m := by
  unfold finishComponent
  split
  · exact ⟨hacc, hlen.le⟩
  split
  · exact ⟨fun c hc => hacc c (mem_of_mem_dropLast hc), by rw [length_dropLast]; omega⟩
  · refine ⟨fun c hc => ?_, by rwa [length_append, length_singleton]⟩
    rcases mem_append.mp hc with hc | hc
    · exact hacc c hc
    · exact mem_singleton.mp hc ▸ hcomp

theorem splitPathLoop_short {m : Nat} (path : Str) {acc : List Str} {comp : Str}
    (hacc : ∀ c ∈ acc, c.length ≤ 31) (hcomp : comp.length ≤ 31) (hlen : acc.length ≤ m) :
    (∀ c ∈ (splitPathLoop m path acc comp).1, c.length ≤ 31) ∧
      (splitPathLoop m path acc comp).2.length ≤ 31 ∧
      (splitPathLoop m path acc comp).1.length ≤ m := by
  induction path generalizing acc comp with
  | nil => exact ⟨hacc, hcomp, hlen⟩
  | cons x path ih =>
    rw [splitPathLoop]
    split
    · next hroom =>
      split
      · split
        · exact ih hacc (Nat.zero_le _) hlen
        · obtain ⟨hshort, hfew⟩ := finishComponent_short hacc hcomp hroom
          exact ih hshort (Nat.zero_le _) hfew
      · refine ih hacc ?_ hlen
        split
        · rw [length_append, length_singleton]
          omega
        · exact hcomp
    · exact ⟨hacc, hcomp, hlen⟩

/-- `split_path` gives few names, and short ones. -/
theorem splitPath_short (path : Str) (m : Nat) :
    (∀ c ∈ splitPath path m, c.length ≤ 31) ∧ (splitPath path m).length ≤ m := by
  obtain ⟨hshort, hcomp, hfew⟩ := splitPathLoop_short (path.dropWhile (· = '/'))
    (show ∀ c ∈ ([] : List Str), c.length ≤ 31 by simp) (show ([] : Str).length ≤ 31 by simp)
    (Nat.zero_le m)
  unfold splitPath
  dsimp only
  split
  · next hroom => exact finishComponent_short hshort hcomp hroom.2
  · exact ⟨hshort, hfew⟩

/-! ## The paths that fit -/

theorem foldl_finishComponent {l acc : List Str} (h : ∀ c ∈ l, PlainName c) :
    l.foldl finishComponent acc = acc ++ l := by
  induction l generalizing acc with
  | nil => simp
  | cons c l ih =>
    rw [foldl_cons, finishComponent_plain (h c mem_cons_self),
      ih fun d hd => h d (mem_cons_of_mem c hd), append_assoc, singleton_append]

/-- What `resolve_path` makes of a path whose names fit. -/
theorem resolvePath_names (h : Names cs) (hlen : (absPath cs).length ≤ 255) :
    resolvePath (some (['/'], ['/'])) (absPath cs) 256 = .ok (absPath cs) ↔
      (absPath cs).length ≤ 253 := by
  have hplain : ∀ c ∈ cs, PlainName c := fun c hc => (h.plain c hc).1
  have hstack : cs.foldl pushSegment [] = cs := by
    rw [foldl_pushSegment (fun c hc => by have := (h.plain c hc).2; omega) fun p hp => ?_,
      foldl_finishComponent hplain, nil_append]
    rw [foldl_finishComponent fun c hc => hplain c (hp.subset hc), nil_append]
    exact hp.length_le.trans h.depth
  have hnorm : normalizePath ((absPath cs).take 255) 256 = joinSegments 256 cs false ['/'] := by
    rw [take_of_length_le hlen, normalizePath, pathSegments_absPath hplain, hstack]
  have hshort := (normalizePath_spec ((absPath cs).take 255) (show 3 ≤ 256 by decide)).2.2
  have hroot : resolvePath (some (['/'], ['/'])) (absPath cs) 256 =
      .ok ((normalizePath ((absPath cs).take 255) 256).take 255) := rfl
  rw [hroot, take_of_length_le (by omega), hnorm, Except.ok.injEq,
    joinSegments_absPath_iff (fun c hc => (hplain c hc).ne_nil) (by decide)]
  omega

theorem Fits.exact (h : Fits cs) : Exact cs where
  resolved := (resolvePath_names h.names (by have := h.length; omega)).mpr h.length
  split := splitPath_absPath h.names.plain h.names.depth
  opened st := by
    unfold lookedUp route
    cases hbest : bestMatch st.mounts (absPath cs) with
    | none => rfl
    | some x => simp [(h.names.splitPath_drop hbest).1]

/-- With a sound cache `open` and `create` find what they should. -/
theorem Fits.finds (h : Fits cs) {st : VfsSt} (hinv : Inv st) (hroot : AtRoot st.mounts cs)
    (hparent : AtRoot st.mounts cs.dropLast) : Finds st cs where
  opened chan := by
    obtain ⟨-, -, -, heq⟩ := openPath_spec hinv ⟨h.names, hroot⟩ chan
    exact heq
  created := by
    rintro parent name rfl chan node n heq
    rw [dropLast_concat] at hparent
    have hfits := (length_absPath_le (prefix_append parent [name])).trans h.length
    obtain ⟨c, r, hres, -, hname⟩ :=
      resolveParent_spec hinv ⟨h.names, ⟨h.names.above, hparent⟩, by omega⟩ chan
    exact hname node n (by rw [hres] at heq; exact heq)

theorem Exact.fits (h : Exact cs) (hcs : ∀ c ∈ cs, PlainName c) (hlen : (absPath cs).length ≤ 255) :
    Fits cs := by
  obtain ⟨hshort, hfew⟩ := splitPath_short (absPath cs) 16
  rw [h.split] at hshort hfew
  have hnames : Names cs := ⟨fun c hc => ⟨hcs c hc, hshort c hc⟩, hfew⟩
  exact ⟨hnames, (resolvePath_names hnames hlen).mp h.resolved⟩

theorem Fits.apart (h : Fits cs) (h' : Fits cs') (hne : cs ≠ cs') : Apart cs cs' := by
  refine ⟨h.exact, h'.exact, fun mounts x hx hx' => hne ?_⟩
  obtain ⟨⟨i, mp⟩, hbest, rfl⟩ := Option.map_eq_some_iff.mp hx
  obtain ⟨⟨i', mp'⟩, hbest', heq⟩ := Option.map_eq_some_iff.mp hx'
  obtain ⟨rfl, hnames⟩ := Prod.mk.inj heq
  obtain ⟨hsplit, hsegs⟩ := h.names.splitPath_drop hbest
  obtain ⟨hsplit', hsegs'⟩ := h'.names.splitPath_drop hbest'
  -- the mounts are the same
  have hmount := (bestMatch_spec hbest).1
  rw [(bestMatch_spec hbest').1, Option.some.injEq] at hmount
  rw [hsegs, hsegs', ← hsplit, ← hsplit', hnames, hmount]

/-- Two paths in normal form are kept apart exactly if both fit. After calls that are safe, `open` and
`create` find what belongs to them if they and their directories are in the root file system or are
mount points. -/
theorem paths_apart_iff (hcs : ∀ c ∈ cs, PlainName c) (hcs' : ∀ c ∈ cs', PlainName c) (hne : cs ≠ cs')
    (hlen : (absPath cs).length ≤ 255) (hlen' : (absPath cs').length ≤ 255) :
    (Apart cs cs' ↔ Fits cs ∧ Fits cs') ∧
      ∀ mounts fs calls, Lib.Along step Safe (booted mounts fs) calls →
        let st := Lib.final step (booted mounts fs) calls
        ∀ p ∈ [cs, cs'], Fits p → AtRoot st.mounts p → AtRoot st.mounts p.dropLast → Finds st p := by
  refine ⟨⟨fun h => ⟨h.left.fits hcs hlen, h.right.fits hcs' hlen'⟩, fun h => h.1.apart h.2 hne⟩, ?_⟩
  intro mounts fs calls hsafe st p _ hfits hroot hparent
  exact hfits.finds (Lib.final_invariant_along step_inv (booted_inv mounts fs) hsafe) hroot hparent

/-- `/b` and a name of 31 bytes in it, after `/b` was made and opened: the answer is in the cache. -/
theorem paths_apart_iff_names :
    Apart [['b']] [['b'], replicate 31 'a'] ∧
      let st := Lib.final step (booted rootAndCard fooOnCard)
        [.create (absPath ([] ++ [['b']])) true makeName, .openPath (absPath [['b']]) true]
      Finds st [['b']] ∧ Finds st [['b'], replicate 31 'a'] := by
  obtain ⟨hiff, hfinds⟩ := @paths_apart_iff [['b']] [['b'], replicate 31 'a'] (by decide) (by decide)
    (by decide) (by decide) (by decide)
  have hfits : Fits [['b']] := ⟨by decide, by decide⟩
  have hfits' : Fits [['b'], replicate 31 'a'] := ⟨by decide, by decide⟩
  have hroot : ∀ p ∈ [[], [['b']], [['b'], replicate 31 'a']], Reached rootAndCard p := by
    decide +kernel
  have hrun := hfinds rootAndCard fooOnCard
    [.create (absPath ([] ++ [['b']])) true makeName, .openPath (absPath [['b']]) true]
    ⟨makeName_safe, ⟨[['b']], rfl, by decide +kernel⟩, trivial⟩
  exact ⟨hiff.mpr ⟨hfits, hfits'⟩,
    hrun _ (by simp) hfits (hroot _ (by simp)).2 (hroot [] (by simp)).2,
    hrun _ (by simp) hfits' (hroot _ (by simp)).2 (hroot [['b']] (by simp)).2⟩

/-- A name of 32 bytes. -/
def longName (c : Char) : List Str := [replicate 31 'a' ++ [c]]

/-- Two names that differ in the 32nd byte are taken for one file. -/
theorem paths_confused : longName 'x' ≠ longName 'y' ∧
    (∀ c ∈ ['x', 'y'], resolvePath (some (['/'], ['/'])) (absPath (longName c)) 256 =
      .ok (absPath (longName c))) ∧
    splitPath (absPath (longName 'x')) 16 = splitPath (absPath (longName 'y')) 16 ∧
    lookedUp [⟨['/'], 2, false, true, fun _ => true⟩] (absPath (longName 'x')) =
      lookedUp [⟨['/'], 2, false, true, fun _ => true⟩] (absPath (longName 'y')) := by
  refine ⟨by decide +kernel, fun c hc => ?_, by decide +kernel, by decide +kernel⟩
  rcases mem_pair.mp hc with rfl | rfl <;> rfl

end Vespera.Vfs
