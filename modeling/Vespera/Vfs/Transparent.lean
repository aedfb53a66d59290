import Vespera.Lib.Run
import Vespera.Vfs.Open

/-! # The dentry cache is transparent above the mount points

`VFS::open` begins every walk at the root of the dentry cache, also below a mount point
other than `/`. A name found in such a file system is therefore cached as a child of
the root directory, and answers for a path it does not belong to
(`open_below_mount_answers_root`).

As long as every call stays where the two roots agree, the cache never shows:
`open_eq_reference` says that in every state reached by calls that are `Safe`, opening a
path that is `Reached` gives what the walk through the owning mount gives.
-/

namespace Vespera.Vfs

open Klib List Lib DentryCache

variable {st : VfsSt} {c : DentryCache} {mp : MountPoint} {cs : List Str} {i : Nat}

/-! ## The owning mount -/

variable (mounts : List MountPoint)

theorem bestMatchLoop_spec {path : Str} (i : Nat) {best : Option (Nat × MountPoint)} {j : Nat}
    (h : bestMatchLoop path mounts i best = some (j, mp)) :
    (best = some (j, mp) ∨ (i ≤ j ∧ mounts[j - i]? = some mp ∧ mp.Covers path)) ∧
      bestLen best ≤ mp.path.length ∧
      ∀ m ∈ mounts, m.Covers path → m.path.length ≤ mp.path.length := by
  induction mounts generalizing i best with
  | nil =>
    subst h
    exact ⟨Or.inl rfl, le_refl _, by simp⟩
  | cons m rest ih =>
    obtain ⟨hfrom, hlen, hmax⟩ := ih (i + 1) h
    have hcase : (m.Covers path → m.path.length ≤ mp.path.length) ∧ bestLen best ≤ mp.path.length := by
      by_cases hm : m.Covers path ∧ bestLen best < m.path.length
      · rw [if_pos hm] at hlen
        simp only [bestLen] at hlen
        exact ⟨fun _ => hlen, by omega⟩
      rw [if_neg hm] at hlen
      refine ⟨fun hcov => ?_, hlen⟩
      have : ¬ bestLen best < m.path.length := fun hlt => hm ⟨hcov, hlt⟩
      omega
    refine ⟨?_, hcase.2, ?_⟩
    · rcases hfrom with hbest | ⟨hij, hget, hcov⟩
      · split at hbest
        · rename_i hm
          obtain ⟨rfl, rfl⟩ := Prod.mk.inj (Option.some.inj hbest)
          exact Or.inr ⟨le_refl _, by simp, hm.1⟩
        · exact Or.inl hbest
      · refine Or.inr ⟨by omega, ?_, hcov⟩
        rw [show j - i = (j - (i + 1)) + 1 by omega, getElem?_cons_succ]
        exact hget
    · intro m' hm' hcov
      rcases mem_cons.mp hm' with rfl | hm'
      · exact hcase.1 hcov
      · exact hmax m' hm' hcov

theorem bestMatch_spec {mounts : List MountPoint} {path : Str} {j : Nat}
    (h : bestMatch mounts path = some (j, mp)) : mounts[j]? = some mp ∧ mp.Covers path ∧
      ∀ m ∈ mounts, m.Covers path → m.path.length ≤ mp.path.length := by
  obtain ⟨hfrom, -, hmax⟩ := bestMatchLoop_spec mounts 0 h
  rcases hfrom with hnone | ⟨-, hget, hcov⟩
  · cases hnone
  · exact ⟨hget, hcov, hmax⟩

/-- Two paths covered by the same mount points have the same owner. -/
theorem bestMatchLoop_congr {path path' : Str} (i : Nat) (best : Option (Nat × MountPoint))
    (h : ∀ m ∈ mounts, m.path ≠ [] → (m.Covers path ↔ m.Covers path')) :
    bestMatchLoop path mounts i best = bestMatchLoop path' mounts i best := by
  induction mounts generalizing i best with
  | nil => rfl
  | cons m rest ih =>
    have hhead : (m.Covers path ∧ bestLen best < m.path.length) ↔
        (m.Covers path' ∧ bestLen best < m.path.length) := by
      constructor
      · rintro ⟨hcov, hlt⟩
        have hne : m.path ≠ [] := length_pos_iff.mp (by omega)
        exact ⟨(h m (by simp) hne).mp hcov, hlt⟩
      · rintro ⟨hcov, hlt⟩
        have hne : m.path ≠ [] := length_pos_iff.mp (by omega)
        exact ⟨(h m (by simp) hne).mpr hcov, hlt⟩
    rw [bestMatchLoop, bestMatchLoop, ih _ _ fun m' hm' => h m' (mem_cons_of_mem m hm')]
    simp only [hhead]

/-- A mount point that covers a directory covers everything in it. -/
theorem MountPoint.Covers.below (h : mp.Covers (absPath cs))
    (hne : mp.path ≠ []) (ds : List Str) : mp.Covers (absPath (cs ++ ds)) := by
  by_cases hcs : cs = []
  · -- only `/` itself covers `/`
    rw [hcs, absPath, relPath] at h
    have hpath : mp.path = ['/'] := by
      rcases hp : mp.path with _ | ⟨x, xs⟩
      · exact absurd hp hne
      · have := h.1
        rw [hp, cons_prefix_cons, prefix_nil] at this
        rw [this.1, this.2]
    refine ⟨?_, Or.inl hpath⟩
    rw [hpath, absPath]
    exact ⟨_, rfl⟩
  have habs : absPath (cs ++ ds) = absPath cs ++ (if ds = [] then [] else '/' :: relPath ds) := by
    rw [absPath, relPath_append hcs, absPath, cons_append]
  have hlen := h.1.length_le
  rw [habs]
  refine ⟨h.1.trans (prefix_append _ _), ?_⟩
  rw [drop_append_of_le_length hlen]
  rcases h.2 with hroot | hslash | hend
  · exact Or.inl hroot
  · refine Or.inr (Or.inl ?_)
    rw [head?_append, hslash]
    rfl
  rw [hend, nil_append]
  by_cases hds : ds = []
  · exact Or.inr (Or.inr (by rw [if_pos hds]))
  · exact Or.inr (Or.inl (by rw [if_neg hds]; rfl))

theorem covers_root (hroot : mp.path = ['/']) : mp.Covers (absPath cs) := by
  refine ⟨?_, Or.inl hroot⟩
  rw [hroot, absPath]
  exact ⟨_, rfl⟩

/-- What lies above a path of the root file system is in the root file system. -/
theorem bestMatch_above {mounts : List MountPoint} {ds : List Str}
    (h : bestMatch mounts (absPath (cs ++ ds)) = some (i, mp)) (hroot : mp.path = ['/']) :
    bestMatch mounts (absPath cs) = some (i, mp) := by
  obtain ⟨-, -, hmax⟩ := bestMatch_spec h
  rw [← h]
  refine bestMatchLoop_congr mounts 0 none ?_
  intro m hm hne
  constructor
  · intro hcov
    exact hcov.below hne ds
  intro hcov
  -- no longer than `/`, and a prefix of an absolute path
  have hlen := hmax m hm hcov
  rw [hroot, length_singleton] at hlen
  refine covers_root ?_
  rcases hp : m.path with _ | ⟨x, xs⟩
  · exact absurd hp hne
  rw [hp, length_cons] at hlen
  have hxs : xs = [] := length_eq_zero_iff.mp (by omega)
  have := hcov.1
  rw [hp, absPath, cons_prefix_cons] at this
  rw [this.1, hxs]

/-! ## Walks -/

theorem walk_append (find : FindFn) (node : VfsNode) (q r : List Str) :
    walk find node (q ++ r) = (walk find node q).bind fun n => walk find n r := by
  induction q generalizing node with
  | nil => rfl
  | cons c q ih =>
    rw [cons_append, walk, walk]
    rcases findIn find node c with e | n
    · rfl
    · exact ih n

theorem walk_singleton {find : FindFn} {node : VfsNode} {name : Str} :
    walk find node [name] = findIn find node name := by
  rw [walk]
  rcases findIn find node name with e | n
  · rfl
  · rfl

/-- A walk stays in its file system. -/
theorem walk_mount {find : FindFn} {node n : VfsNode} {q : List Str}
    (h : walk find node q = .ok n) : n.mount = node.mount := by
  induction q generalizing node with
  | nil =>
    rw [Except.ok.inj h]
  | cons c q ih =>
    rw [walk] at h
    unfold findIn at h
    rcases hf : find node.inode c with e | ⟨inode, fifo⟩
    · rw [hf] at h
      cases h
    · rw [hf] at h
      rw [ih h]

/-! ## Paths at which the cache and the mount agree -/

/-- Components that survive `split_path`: in normal form and within its buffers. -/
@[mk_iff] structure Names (cs : List Str) : Prop where
  plain : ∀ c ∈ cs, PlainName c ∧ c.length ≤ 31
  depth : cs.length ≤ 16

instance (cs : List Str) : Decidable (Names cs) := decidable_of_iff' _ (names_iff cs)

theorem Names.cache (h : Names cs) : ∀ c ∈ cs, DentryCache.CacheName c := by
  intro c hc
  obtain ⟨hplain, hlen⟩ := h.plain c hc
  exact ⟨hplain.ne_nil, hplain.no_slash, by simp only [dentryMaxName]; omega⟩

theorem Names.above {ds : List Str} (h : Names (cs ++ ds)) : Names cs := by
  have hdepth := h.depth
  rw [length_append] at hdepth
  exact ⟨fun c hc => h.plain c (mem_append_left ds hc), by omega⟩

/-- The path is in the root file system, or it is a mount point. -/
def Reached (cs : List Str) : Prop :=
  Names cs ∧ ∀ i mp, bestMatch mounts (absPath cs) = some (i, mp) →
    mp.path = ['/'] ∨ mp.path = absPath cs

instance (cs : List Str) : Decidable (Reached mounts cs) :=
  decidable_of_iff
    (Names cs ∧ ∀ best ∈ bestMatch mounts (absPath cs), best.2.path = ['/'] ∨ best.2.path = absPath cs)
    ⟨fun ⟨h1, h2⟩ => ⟨h1, fun i mp h => h2 (i, mp) h⟩, fun ⟨h1, h2⟩ => ⟨h1, fun _ h => h2 _ _ h⟩⟩

theorem route_root (hn : Names cs)
    (hbest : bestMatch st.mounts (absPath cs) = some (i, mp)) (hroot : mp.path = ['/']) :
    route st (absPath cs) = some (i, mp, cs) := by
  have hseg : pathSegments ((absPath cs).drop 1) [] = cs :=
    pathSegments_absPath fun c hc => (hn.plain c hc).1
  unfold route
  rw [hbest, Option.map_some]
  dsimp only
  rw [hroot, length_singleton, hseg]

theorem route_point
    (hbest : bestMatch st.mounts (absPath cs) = some (i, mp)) (hpoint : mp.path = absPath cs) :
    route st (absPath cs) = some (i, mp, []) := by
  unfold route
  rw [hbest, Option.map_some]
  dsimp only
  rw [hpoint, drop_length]
  rfl

/-- A mount point that covers a path has the first of its components. -/
theorem MountPoint.Covers.segments {path : Str} (h : mp.Covers path) :
    pathSegments path [] = pathSegments mp.path [] ++ pathSegments (path.drop mp.path.length) [] := by
  obtain ⟨⟨rest, rfl⟩, hrest⟩ := h
  rw [drop_left] at hrest ⊢
  rcases hrest with hroot | hslash | hend
  · rw [hroot]
    rfl
  · exact pathSegments_append _ _ _ (.inr hslash)
  · exact pathSegments_append _ _ _ (.inl hend)

/-- `open` looks up the names behind the mount point. -/
theorem Names.splitPath_drop (h : Names cs) {mounts : List MountPoint}
    (hbest : bestMatch mounts (absPath cs) = some (i, mp)) :
    splitPath (skipSlash ((absPath cs).drop mp.path.length)) 16 =
        pathSegments ((absPath cs).drop mp.path.length) [] ∧
      cs = pathSegments mp.path [] ++ pathSegments ((absPath cs).drop mp.path.length) [] := by
  have hsegs := (bestMatch_spec hbest).2.1.segments
  rw [pathSegments_absPath fun c hc => (h.plain c hc).1] at hsegs
  generalize (absPath cs).drop mp.path.length = rest at hsegs ⊢
  have hskip : pathSegments (skipSlash rest) [] = pathSegments rest [] := by
    unfold skipSlash
    split
    · next hslash =>
      obtain ⟨rest, rfl⟩ := head?_eq_some_iff.mp hslash
      rfl
    · rfl
  refine ⟨?_, hsegs⟩
  rw [← hskip]
  refine splitPath_segments (fun c hc => ?_) ?_
  · rw [hskip] at hc
    exact h.plain c (hsegs ▸ mem_append_right _ hc)
  · have hdepth := h.depth
    rw [hsegs, length_append] at hdepth
    rw [hskip]
    omega

/-! ## The invariant -/

/-- Every entry of the cache is what the reference says about its path. -/
structure Sound (st : VfsSt) (c : DentryCache) : Prop where
  ok : c.Ok
  entry : ∀ q node, c.find q = some node → Reached st.mounts q ∧ reference st (absPath q) = .ok node

/-- The reference does not read the cache. -/
theorem Sound.congr {st' : VfsSt} (h : Sound st c)
    (hmounts : st'.mounts = st.mounts) (hfs : st'.fs = st.fs) : Sound st' c := by
  obtain ⟨mounts, fs, cache⟩ := st
  subst hmounts hfs
  exact ⟨h.ok, h.entry⟩

theorem Sound.reordered {c' : DentryCache} (h : Sound st c)
    (hr : DentryCache.Reordered c c') : Sound st c' := by
  refine ⟨hr.ok, ?_⟩
  intro q node hq
  rw [hr.find] at hq
  exact h.entry q node hq

theorem Sound.stored {c' : DentryCache} {node : VfsNode}
    (h : Sound st c) (hst : DentryCache.Stored c c' cs node) (hr : Reached st.mounts cs)
    (href : reference st (absPath cs) = .ok node) : Sound st c' := by
  refine ⟨hst.ok, ?_⟩
  intro q n hq
  rcases hst.find q n hq with ⟨rfl, rfl⟩ | hold
  · exact ⟨hr, href⟩
  · exact h.entry q n hold

/-- The loop of `open` in the root file system: `done` is the part of the path that has
been walked, and `current` is where it leads. -/
theorem openLoop_spec (hroot : mp.path = ['/'])
    (hfind : mp.hasFind) {rest : List Str} {done : List Str}
    {current : VfsNode} (hbest : bestMatch st.mounts (absPath (done ++ rest)) = some (i, mp))
    (hn : Names (done ++ rest)) (hs : Sound st c) (hch : c.Chain done)
    (hcur : walk (st.fs i) (mp.root i) done = .ok current) :
    Sound st (openLoop st.fs rest current done c).1 ∧
      (openLoop st.fs rest current done c).2 = walk (st.fs i) (mp.root i) (done ++ rest) := by
  induction rest generalizing done c current with
  | nil =>
    rw [append_nil, hcur, openLoop]
    exact ⟨hs, rfl⟩
  | cons name rest ih =>
    have hsplit : done ++ name :: rest = (done ++ [name]) ++ rest := by simp
    rw [hsplit] at hbest hn ⊢
    have hname : DentryCache.CacheName name := hn.cache name (by simp)
    have hnext := bestMatch_above hbest hroot
    have hrefnext : reference st (absPath (done ++ [name])) =
        walk (st.fs i) (mp.root i) (done ++ [name]) := by
      unfold reference
      rw [route_root hn.above hnext hroot]
      simp [hfind]
    have hreached : Reached st.mounts (done ++ [name]) := by
      refine ⟨hn.above, ?_⟩
      intro j mp' hj
      rw [hnext] at hj
      obtain ⟨-, rfl⟩ := Prod.mk.inj (Option.some.inj hj)
      exact Or.inl hroot
    have hmount : current.mount = i := walk_mount hcur
    have hwalk : walk (st.fs i) (mp.root i) (done ++ [name]) = findIn (st.fs i) current name := by
      rw [walk_append, hcur]
      exact walk_singleton
    obtain ⟨hfound, hreord⟩ := lookupComponent_spec hs.ok done hname.ne_nil
    rw [openLoop]
    rcases hstep : lookupComponent c done name with ⟨c', _ | node⟩
    · -- not cached: the directory is asked, and the answer becomes the next dentry
      have hmiss : lookupComponent c done name = (c, none) := by
        unfold DentryCache.lookupComponent
        rw [hstep] at hfound
        rw [if_neg hname.ne_nil, ← hfound]
      rw [hmiss] at hstep
      obtain ⟨rfl, -⟩ := Prod.mk.inj hstep
      rw [hmount]
      rcases hfi : findIn (st.fs i) current name with e | node
      · refine ⟨hs, ?_⟩
        rw [walk_append, hwalk, hfi]
        rfl
      have hdepth := hn.depth
      simp only [length_append] at hdepth
      obtain ⟨hdentry, hstored, hchain⟩ := insertComponent_spec hs.ok hch
        (by simp only [dentryMaxEntries]; omega) hname node
      dsimp only
      rw [hdentry, Option.getD_some]
      exact ih hbest hn (hs.stored hstored hreached (by rw [hrefnext, hwalk, hfi])) hchain
        (by rw [hwalk, hfi])
    -- cached: the entry is right
    have hchain := lookupComponent_chain hch (by rw [hstep])
    rw [hstep] at hfound hreord hchain
    have hgood := (hs.entry _ node hfound.symm).2
    rw [hrefnext] at hgood
    exact ih hbest hn (hs.reordered hreord) hchain hgood

/-- The state of a `VFS` whose cache is sound. -/
def Inv (st : VfsSt) : Prop := Sound st st.cache

/-- `open` changes nothing but the cache, keeps it sound, and answers as the reference
does. -/
theorem openPath_spec (hinv : Inv st) (hr : Reached st.mounts cs) (chan : Bool) :
    ∃ c, (openPath st (absPath cs) chan).1 = { st with cache := c } ∧ Sound st c ∧
      (openPath st (absPath cs) chan).2 = (reference st (absPath cs)).bind (openChannel chan) := by
  have hn := hr.1
  -- the whole path in the cache: nothing but a right answer
  have hlookup : ∃ c r, lookup st.cache (absPath cs) = (c, r) ∧ Sound st c ∧
      ∀ node, r = some node → reference st (absPath cs) = .ok node := by
    by_cases hcs : cs = []
    · refine ⟨st.cache, none, ?_, hinv, by simp⟩
      rw [hcs]
      rfl
    obtain ⟨hfound, hreord⟩ := lookup_spec hinv.ok hcs hn.cache
    refine ⟨_, (lookup st.cache (absPath cs)).2, rfl, hinv.reordered hreord, ?_⟩
    intro node hnode
    rw [hfound] at hnode
    exact (hinv.entry cs node hnode).2
  obtain ⟨c, r, hl, hs, hhit⟩ := hlookup
  unfold openPath
  rw [if_neg (by rw [absPath]; exact cons_ne_nil _ _), hl]
  rcases r with _ | node
  · rcases hbest : bestMatch st.mounts (absPath cs) with _ | ⟨i, mp⟩
    · refine ⟨c, rfl, hs, ?_⟩
      unfold reference route
      rw [hbest]
      rfl
    dsimp only
    -- the part of the path inside the mount, as the source and as the reference split it
    have hroute : ∃ rest, route st (absPath cs) = some (i, mp, rest) ∧
        splitPath (skipSlash ((absPath cs).drop mp.path.length)) 16 = rest ∧
        (rest = [] ∨ (mp.path = ['/'] ∧ rest = cs)) := by
      obtain ⟨hsplit, hsegs⟩ := hn.splitPath_drop hbest
      refine ⟨_, by rw [route, hbest]; rfl, hsplit, ?_⟩
      rcases hr.2 i mp hbest with hroot | hpoint
      · exact Or.inr ⟨hroot, by nth_rewrite 2 [hsegs]; rw [hroot]; rfl⟩
      · exact Or.inl (by rw [hpoint, drop_length]; rfl)
    obtain ⟨rest, hroute, hsplit, hrest⟩ := hroute
    have href : reference st (absPath cs) =
        if ¬ mp.hasFind then .error .noSys else walk (st.fs i) (mp.root i) rest := by
      unfold reference
      rw [hroute]
    rw [hsplit]
    by_cases hfind : mp.hasFind
    · rw [if_neg (not_not_intro hfind)] at href ⊢
      have hloop : Sound st (openLoop st.fs rest (mp.root i) [] c).1 ∧
          (openLoop st.fs rest (mp.root i) [] c).2 = walk (st.fs i) (mp.root i) rest := by
        rcases hrest with rfl | ⟨hroot, rfl⟩
        · exact ⟨hs, rfl⟩
        · exact openLoop_spec hroot hfind (by simpa using hbest) (by simpa using hn) hs
            (PathCache.chain_nil c) rfl
      rcases hres : openLoop st.fs rest (mp.root i) [] c with ⟨c', e | node⟩
      · rw [hres] at hloop
        refine ⟨c', rfl, hloop.1, ?_⟩
        rw [href, ← hloop.2]
        rfl
      rw [hres] at hloop
      have hdepth := hn.depth
      have hstored := insert_spec hloop.1.ok hn.cache (by simp only [dentryMaxEntries]; omega) node
      refine ⟨_, rfl, hloop.1.stored hstored hr (by rw [href, ← hloop.2]), ?_⟩
      rw [href, ← hloop.2]
      rfl
    · rw [if_pos hfind] at href ⊢
      refine ⟨c, rfl, hs, ?_⟩
      rw [href]
      rfl
  · refine ⟨c, rfl, hs, ?_⟩
    rw [hhit node rfl]
    rfl

/-! ## Changing names -/

/-- What a driver promises: a call that fails changes nothing, and one that succeeds
changes nothing except at and below the names it was given. -/
def Outcome.Keeps (out : Outcome) (find : FindFn) (root : VfsNode) (changed : List (List Str)) : Prop :=
  ∀ q, (out.result = .ok () → ∀ r ∈ changed, ¬ r <+: q) → walk out.find root q = walk find root q

/-- A name in a directory that can be reached. -/
structure SafeName (mounts : List MountPoint) (parent : List Str) (name : Str) : Prop where
  names : Names (parent ++ [name])
  reached : Reached mounts parent
  fits : (absPath parent).length ≤ 255

/-- The calls after which the cache is still transparent. -/
def Safe (st : VfsSt) : Call → Prop
  | .openPath path _ => ∃ cs, path = absPath cs ∧ Reached st.mounts cs
  | .create path _ driver | .mkdir path _ driver | .unlink path _ driver | .rmdir path _ driver =>
    ∃ parent name, path = absPath (parent ++ [name]) ∧ SafeName st.mounts parent name ∧
      ∀ i mp rest node, route st (absPath parent) = some (i, mp, rest) →
        reference st (absPath parent) = .ok node →
        (driver node.inode name).Keeps (st.fs i) (mp.root i) [rest ++ [name]]
  | .rename oldPath newPath _ _ driver =>
    ∃ oldParent oldName newParent newName,
      oldPath = absPath (oldParent ++ [oldName]) ∧ SafeName st.mounts oldParent oldName ∧
      newPath = absPath (newParent ++ [newName]) ∧ SafeName st.mounts newParent newName ∧
      ∀ i mp rest rest' node, route st (absPath oldParent) = some (i, mp, rest) →
        route st (absPath newParent) = some (i, mp, rest') →
        reference st (absPath oldParent) = .ok node →
        (driver node.inode oldName newName).Keeps (st.fs i) (mp.root i)
          [rest ++ [oldName], rest' ++ [newName]]

/-- `resolve_parent` finds the parent as the reference does. -/
theorem resolveParent_spec (hinv : Inv st) {parent : List Str} {name : Str}
    (h : SafeName st.mounts parent name) (chan : Bool) :
    ∃ c r, resolveParent st (absPath (parent ++ [name])) chan = ({ st with cache := c }, r) ∧
      Sound st c ∧
      ∀ node n, r = some (node, n) → n = name ∧ reference st (absPath parent) = .ok node := by
  have hsplit : splitPath (absPath (parent ++ [name])) 16 = parent ++ [name] :=
    splitPath_absPath h.names.plain h.names.depth
  obtain ⟨c, hst, hs, hres⟩ := openPath_spec hinv h.reached chan
  unfold resolveParent
  rw [hsplit, getLast?_concat, dropLast_concat, take_of_length_le h.fits]
  rcases hopen : openPath st (absPath parent) chan with ⟨st', e | node⟩
  · rw [hopen] at hst
    exact ⟨c, none, by rw [← hst], hs, by simp⟩
  rw [hopen] at hst hres
  refine ⟨c, some (node, name), by rw [← hst], hs, ?_⟩
  intro n m hsome
  obtain ⟨rfl, rfl⟩ := Prod.mk.inj (Option.some.inj hsome)
  refine ⟨rfl, ?_⟩
  -- the node came out of `openChannel` unchanged
  rcases href : reference st (absPath parent) with e | n'
  · rw [href] at hres
    cases hres
  rw [href] at hres
  have hch : Except.ok node = openChannel chan n' := hres
  unfold openChannel at hch
  split at hch
  · cases hch
  · rw [Except.ok.inj hch]

/-- The node that the reference finds belongs to the owning mount. -/
theorem reference_mount {path : Str} {node : VfsNode} (h : reference st path = .ok node) :
    ∃ mp rest, route st path = some (node.mount, mp, rest) := by
  unfold reference at h
  rcases hroute : route st path with _ | ⟨i, mp, rest⟩
  · rw [hroute] at h
    cases h
  rw [hroute] at h
  dsimp only at h
  split at h
  · cases h
  · exact ⟨mp, rest, by rw [walk_mount h]; rfl⟩

theorem setFind_fs {find : FindFn} : (setFind st i find).fs = Function.update st.fs i find := rfl

/-- The names of one file system change: what is not at or below a changed name is found
as before. -/
theorem reference_setFind {out : Outcome} {changed : List (List Str)}
    {q : List Str} (hq : Reached st.mounts q)
    (hkeeps : ∀ mp, bestMatch st.mounts (absPath q) = some (i, mp) → mp.path = ['/'] →
      out.Keeps (st.fs i) (mp.root i) changed)
    (hnot : out.result = .ok () → ∀ r ∈ changed, ¬ r <+: q) :
    reference (setFind st i out.find) (absPath q) = reference st (absPath q) := by
  have hroute : route (setFind st i out.find) (absPath q) = route st (absPath q) := rfl
  unfold reference
  rw [hroute]
  rcases hbest : bestMatch st.mounts (absPath q) with _ | ⟨j, mp⟩
  · unfold route
    rw [hbest]
    rfl
  rcases hq.2 j mp hbest with hroot | hpoint
  · rw [route_root hq.1 hbest hroot]
    dsimp only
    by_cases hij : j = i
    · subst hij
      have hwalk := hkeeps mp hbest hroot q hnot
      rw [setFind_fs, Function.update_self, hwalk]
    · rw [setFind_fs, Function.update_of_ne hij]
  · -- a mount point leads to a root directory, whatever the names
    rw [route_point hbest hpoint]
    rfl

/-- The mount of a file system is the root mount for every path or for none. -/
theorem route_of_mount {parent q : List Str} {mp' : MountPoint} {rest : List Str}
    (hr : Reached st.mounts parent) (hroute : route st (absPath parent) = some (i, mp', rest))
    (hq : bestMatch st.mounts (absPath q) = some (i, mp)) (hroot : mp.path = ['/']) :
    mp' = mp ∧ rest = parent := by
  have hbest : bestMatch st.mounts (absPath parent) = some (i, mp') := by
    unfold route at hroute
    rcases hb : bestMatch st.mounts (absPath parent) with _ | ⟨j, m⟩
    · rw [hb] at hroute
      cases hroute
    · rw [hb, Option.map_some] at hroute
      have heq := Prod.mk.inj (Option.some.inj hroute)
      rw [heq.1, (Prod.mk.inj heq.2).1]
  have hmp : mp' = mp := by
    have hget := (bestMatch_spec hbest).1
    rw [(bestMatch_spec hq).1] at hget
    exact (Option.some.inj hget).symm
  refine ⟨hmp, ?_⟩
  rw [route_root hr.1 hbest (by rw [hmp, hroot])] at hroute
  exact (Prod.mk.inj (Prod.mk.inj (Option.some.inj hroute)).2).2.symm

/-- `invalidate` on a sound cache; what is left is not at or below the path. -/
theorem Sound.invalidate (h : Sound st c) (hne : cs ≠ []) (hn : Names cs) :
    Sound st (DentryCache.invalidate c (absPath cs)) ∧
      ∀ k x, (DentryCache.invalidate c (absPath cs)).find k = some x → c.find k = some x ∧
      ¬ cs <+: k := by
  obtain ⟨hok, hfind⟩ := invalidate_spec h.ok hn.cache hne
  exact ⟨⟨hok, fun q node hq => h.entry q node (hfind q node hq).1⟩, hfind⟩

/-- A change of names after which the cache has no entry at or below a changed name. -/
theorem Sound.setFind (h : Sound st c) {out : Outcome} {changed : List (List Str)}
    (hkeeps : ∀ q mp, bestMatch st.mounts (absPath q) = some (i, mp) → mp.path = ['/'] →
      out.Keeps (st.fs i) (mp.root i) changed)
    (hnot : out.result = .ok () → ∀ q node, c.find q = some node → ∀ r ∈ changed, ¬ r <+: q) :
    Sound (Vfs.setFind st i out.find) c := by
  refine ⟨h.ok, ?_⟩
  intro q node hq
  obtain ⟨hreached, href⟩ := h.entry q node hq
  refine ⟨hreached, ?_⟩
  rw [reference_setFind hreached (hkeeps q) fun hok => hnot hok q node hq]
  exact href

/-- The step lemma for `create`, `mkdir`, `unlink` and `rmdir`. -/
theorem changeName_inv {op : DirOp} (hinv : Inv st) {parent : List Str} {name : Str}
    {chan : Bool} {driver : Nat → Str → Outcome} (hsafe : SafeName st.mounts parent name)
    (hkeeps : ∀ i mp rest node, route st (absPath parent) = some (i, mp, rest) →
      reference st (absPath parent) = .ok node →
      (driver node.inode name).Keeps (st.fs i) (mp.root i) [rest ++ [name]]) :
    Inv (changeName op st (absPath (parent ++ [name])) chan driver).1 := by
  obtain ⟨c, r, hres, hs, hparent⟩ := resolveParent_spec hinv hsafe chan
  unfold changeName
  rw [hres]
  rcases r with _ | ⟨node, n⟩
  · exact hs.congr rfl rfl
  obtain ⟨rfl, href⟩ := hparent node n rfl
  obtain ⟨mp', rest, hroute⟩ := reference_mount href
  -- the driver keeps everything in the root file system but what is below the name
  have hk : ∀ q mp, bestMatch st.mounts (absPath q) = some (node.mount, mp) → mp.path = ['/'] →
      (driver node.inode n).Keeps (st.fs node.mount) (mp.root node.mount) [parent ++ [n]] := by
    intro q mp hq hroot
    obtain ⟨rfl, rfl⟩ := route_of_mount hsafe.reached hroute hq hroot
    exact hkeeps _ _ _ node hroute href
  dsimp only
  split
  · exact hs.congr rfl rfl
  split
  · exact hs.congr rfl rfl
  rcases hout : (driver node.inode n).result with e | u
  · refine (hs.setFind hk ?_).congr rfl rfl
    intro hok
    rw [hout] at hok
    cases hok
  obtain ⟨hs', hfind⟩ := hs.invalidate (by simp) hsafe.names
  refine (hs'.setFind hk ?_).congr rfl rfl
  intro _ q x hx r hr
  rw [mem_singleton] at hr
  rw [hr]
  exact (hfind q x hx).2

theorem rename_inv (hinv : Inv st) {oldParent newParent : List Str}
    {oldName newName : Str} {chan same : Bool} {driver : Nat → Str → Str → Outcome}
    (hold : SafeName st.mounts oldParent oldName) (hnew : SafeName st.mounts newParent newName)
    (hkeeps : ∀ i mp rest rest' node, route st (absPath oldParent) = some (i, mp, rest) →
      route st (absPath newParent) = some (i, mp, rest') →
      reference st (absPath oldParent) = .ok node →
      (driver node.inode oldName newName).Keeps (st.fs i) (mp.root i)
        [rest ++ [oldName], rest' ++ [newName]]) :
    Inv (rename st (absPath (oldParent ++ [oldName])) (absPath (newParent ++ [newName])) chan same
      driver).1 := by
  obtain ⟨c, r, hres, hs, hparent⟩ := resolveParent_spec hinv hold chan
  unfold rename
  rw [hres]
  rcases r with _ | ⟨node, n⟩
  · exact hs.congr rfl rfl
  obtain ⟨rfl, href⟩ := hparent node n rfl
  dsimp only
  have hinv' : Inv { st with cache := c } := hs.congr rfl rfl
  obtain ⟨c', r', hres', hs', hparent'⟩ := resolveParent_spec hinv' hnew chan
  rw [hres']
  rcases r' with _ | ⟨node', n'⟩
  · exact hs'.congr rfl rfl
  obtain ⟨rfl, href'⟩ := hparent' node' n' rfl
  dsimp only
  split
  · exact hs'.congr rfl rfl
  split
  · exact hs'.congr rfl rfl
  rename_i hsame
  obtain ⟨rfl, -⟩ := not_not.mp hsame
  obtain ⟨m, rest, hroute⟩ := reference_mount href
  obtain ⟨m', rest', hroute'⟩ := reference_mount href'
  have hk : ∀ q mp, bestMatch st.mounts (absPath q) = some (node.mount, mp) →
      mp.path = ['/'] → (driver node.inode n n').Keeps (st.fs node.mount)
        (mp.root node.mount) [oldParent ++ [n], newParent ++ [n']] := by
    intro q mp hq hroot
    obtain ⟨rfl, rfl⟩ := route_of_mount hold.reached hroute hq hroot
    obtain ⟨rfl, rfl⟩ := route_of_mount hnew.reached hroute' hq hroot
    exact hkeeps _ _ _ _ node hroute hroute' href
  split
  · exact hs'.congr rfl rfl
  rcases hout : (driver node.inode n n').result with e | u
  · refine (hs'.setFind hk ?_).congr rfl rfl
    intro hok
    rw [hout] at hok
    cases hok
  -- both names are dropped from the cache before the driver's change shows
  obtain ⟨hs1, hfind1⟩ := hs'.invalidate (by simp) hold.names
  obtain ⟨hs2, hfind2⟩ := hs1.invalidate (by simp) hnew.names
  refine (hs2.setFind hk ?_).congr rfl rfl
  intro _ q x hx r hr
  obtain ⟨hx1, hnot2⟩ := hfind2 q x hx
  obtain ⟨-, hnot1⟩ := hfind1 q x hx1
  rw [mem_cons, mem_singleton] at hr
  rcases hr with rfl | rfl
  · exact hnot1
  · exact hnot2

/-! ## Runs -/

theorem booted_inv (fs : Nat → FindFn) : Inv (booted mounts fs) := by
  refine ⟨⟨nodup_nil, not_mem_nil, ?_⟩, ?_⟩
  · intro k hk
    cases hk
  · intro q node hq
    cases hq

theorem step_inv (st : VfsSt) (call : Call) (hinv : Inv st) (hsafe : Safe st call) :
    Inv (step st call).1 := by
  cases call with
  | openPath path chan =>
    obtain ⟨cs, rfl, hr⟩ := hsafe
    obtain ⟨c, hst, hs, -⟩ := openPath_spec hinv hr chan
    show Inv (openPath st (absPath cs) chan).1
    rw [hst]
    exact hs.congr rfl rfl
  | create path chan driver | mkdir path chan driver | unlink path chan driver =>
    obtain ⟨parent, name, rfl, hname, hkeeps⟩ := hsafe
    exact changeName_inv hinv hname hkeeps
  | rmdir path chan driver =>
    obtain ⟨parent, name, rfl, hname, hkeeps⟩ := hsafe
    show Inv (rmdir st (absPath (parent ++ [name])) chan driver).1
    unfold rmdir
    split
    · exact hinv
    · exact changeName_inv hinv hname hkeeps
  | rename oldPath newPath chan same driver =>
    obtain ⟨oldParent, oldName, newParent, newName, rfl, hold, rfl, hnew, hkeeps⟩ := hsafe
    exact rename_inv hinv hold hnew hkeeps

/-- In every state reached by safe calls, opening a path above the mount points gives
the node that the walk through the owning mount gives. -/
theorem open_eq_reference (mounts : List MountPoint) (fs : Nat → FindFn) (calls : List Call)
    (hsafe : Along step Safe (booted mounts fs) calls) (cs : List Str)
    (hr : Reached (final step (booted mounts fs) calls).mounts cs) :
    (openPath (final step (booted mounts fs) calls) (absPath cs) true).2 =
      reference (final step (booted mounts fs) calls) (absPath cs) := by
  have hinv : Inv (final step (booted mounts fs) calls) :=
    final_invariant_along step_inv (booted_inv mounts fs) hsafe
  obtain ⟨c, -, -, hres⟩ := openPath_spec hinv hr true
  rw [hres]
  rcases reference (final step (booted mounts fs) calls) (absPath cs) with e | node
  · rfl
  · simp [Except.bind, openChannel]

/-- A root file system and a card mounted in it. -/
def rootAndCard : List MountPoint :=
  [⟨['/'], 2, false, true, fun _ => true⟩,
   ⟨absPath [['m', 'n', 't'], ['s', 'd', '0']], 2, false, true, fun _ => true⟩]

/-- Only the card has a file, `foo`. -/
def fooOnCard : Nat → FindFn := fun i inode name =>
  if i = 1 ∧ inode = 2 ∧ name = ['f', 'o', 'o'] then .ok (7, false) else .error .noEnt

/-- A driver that makes the name in the directory 2, as inode 9. -/
def makeName (_ : Nat) (name : Str) : Outcome where
  find := fun inode n => if inode = 2 ∧ n = name then .ok (9, false) else .error .noEnt
  result := .ok ()

theorem makeName_safe : Safe (booted rootAndCard fooOnCard)
    (.create (absPath ([] ++ [['b']])) true makeName) := by
  refine ⟨[], ['b'], rfl, ⟨by decide +kernel, by decide +kernel, by decide +kernel⟩, ?_⟩
  intro i mp rest node hroute _ q hnot
  have hroot : route (booted rootAndCard fooOnCard) (absPath []) =
      some (0, ⟨['/'], 2, false, true, fun _ => true⟩, []) := rfl
  rw [hroot] at hroute
  obtain ⟨rfl, hinside⟩ := Prod.mk.inj (Option.some.inj hroute)
  obtain ⟨-, rfl⟩ := Prod.mk.inj hinside
  rcases q with _ | ⟨c, q⟩
  · rfl
  -- before and after, only `b` could be found in the root directory
  have hc : c ≠ ['b'] := by
    rintro rfl
    exact hnot rfl _ (mem_singleton_self _) (by simp)
  rw [walk, walk]
  simp [findIn, makeName, booted, fooOnCard, hc]

/-- `/b` is made and opened, so that the last answer comes from the cache. -/
theorem open_eq_reference_created :
    let calls := [.create (absPath ([] ++ [['b']])) true makeName, .openPath (absPath [['b']]) true]
    let st := final step (booted rootAndCard fooOnCard) calls
    Along step Safe (booted rootAndCard fooOnCard) calls ∧
      (lookup st.cache (absPath [['b']])).2 = some ⟨0, 9, false⟩ ∧
      (openPath st (absPath [['b']]) true).2 = reference st (absPath [['b']]) := by
  intro calls st
  have hsafe : Along step Safe (booted rootAndCard fooOnCard) calls :=
    ⟨makeName_safe, ⟨[['b']], rfl, by decide +kernel⟩, trivial⟩
  exact ⟨hsafe, by decide +kernel,
    open_eq_reference rootAndCard fooOnCard calls hsafe [['b']] (by decide +kernel)⟩

/-- After `foo` on the card was opened, opening `/foo` gives the card's file, though the
root file system has no such name. -/
theorem open_below_mount_answers_root :
    (openPath (final step (booted rootAndCard fooOnCard)
        [.openPath (absPath [['m', 'n', 't'], ['s', 'd', '0'], ['f', 'o', 'o']]) true])
      (absPath [['f', 'o', 'o']]) true).2 = .ok ⟨1, 7, false⟩ ∧
    reference (final step (booted rootAndCard fooOnCard)
        [.openPath (absPath [['m', 'n', 't'], ['s', 'd', '0'], ['f', 'o', 'o']]) true])
      (absPath [['f', 'o', 'o']]) = .error .noEnt :=
  ⟨rfl, rfl⟩

end Vespera.Vfs
