import Vespera.Klib.Path
import Vespera.Lib.PathCache

/-! # The dentry cache

`filesystem/vfs/dentry_cache.cpp` as an instance of `Lib.PathCache`. A dentry is named
by the components on the way from the root to it, so a `dentry*` is a path here and
the null pointer, which stands for the root, is `[]`; the slab, the free list and the
LRU list show up as the bound on the number of entries and their order. `hash` is a
function of `name` and `find_child` compares both, so names are compared here; the hit
and miss counters and the reference counts of the nodes are left out.

`lookup_spec`, `insertComponent_spec`, `insert_spec` and `invalidate_spec` say what the
operations do to the entries, for paths in normal form.
-/

namespace Vespera.Vfs

open Klib List Lib

/-- `VfsNode`, as far as it is compared here: the mount, the inode, and whether it is a
FIFO. -/
structure VfsNode where
  mount : Nat
  inode : Nat
  fifo : Bool
deriving DecidableEq, Repr

abbrev dentryMaxEntries : Nat := 4096

abbrev dentryMaxName : Nat := 64

abbrev DentryCache := PathCache Str VfsNode

namespace DentryCache

variable {c : DentryCache} {cs : List Str}

/-- `lookup_component`: the node, and with it the dentry `parent ++ [name]`. -/
def lookupComponent (c : DentryCache) (parent : List Str) (name : Str) : DentryCache × Option VfsNode :=
  if name = [] then (c, none)
  else
    match c.find (parent ++ [name]) with
    | none => (c, none)
    | some node => (c.touch (parent ++ [name]), some node)

/-- `insert_component`: the dentry, `none` for the null pointer. -/
def insertComponent (c : DentryCache) (parent : List Str) (name : Str) (node : VfsNode) :
    DentryCache × Option (List Str) :=
  if name = [] then (c, none)
  else if dentryMaxName ≤ name.length then (c, none)
  else
    match PathCache.putEvicting dentryMaxEntries c (parent ++ [name]) node with
    | none => (c, none)
    | some c => (c, some (parent ++ [name]))

/-- One component off the front of a path, and the rest after one slash; `none` for an
empty component or one that is too long. -/
def nextComponent (p : Str) : Option (Str × Str) :=
  let name := p.takeWhile (· ≠ '/')
  if name = [] ∨ dentryMaxName ≤ name.length then none
  else some (name, (p.drop name.length).drop 1)

/-- Drop one leading slash. -/
def skipSlash (p : Str) : Str := if p.head? = some '/' then p.drop 1 else p

/-- The loop of `lookup`. -/
def lookupLoop : Nat → DentryCache → List Str → Option VfsNode → Str → DentryCache × Option VfsNode
  | 0, c, _, result, _ => (c, result)
  | fuel + 1, c, parent, result, p =>
    if p = [] then (c, result)
    else
      match nextComponent p with
      | none => (c, none)
      | some (name, rest) =>
        match lookupComponent c parent name with
        | (c, none) => (c, none)
        | (c, some node) => lookupLoop fuel c (parent ++ [name]) (some node) rest

def lookup (c : DentryCache) (path : Str) : DentryCache × Option VfsNode :=
  if path = [] ∨ path = ['/'] then (c, none)
  else lookupLoop (path.length + 1) c [] none (skipSlash path)

/-- The loop of `insert`. -/
def insertLoop (node : VfsNode) : Nat → DentryCache → List Str → Str → DentryCache
  | 0, c, _, _ => c
  | fuel + 1, c, parent, p =>
    if p = [] then c
    else
      match nextComponent p with
      | none => c
      | some (name, rest) =>
        -- the last component has nothing behind it, not even a slash
        if p.drop name.length = [] then (insertComponent c parent name node).1
        else
          match lookupComponent c parent name with
          | (c, none) => c
          | (c, some _) => insertLoop node fuel c (parent ++ [name]) rest

def insert (c : DentryCache) (path : Str) (node : VfsNode) : DentryCache :=
  if path = [] ∨ path = ['/'] then c
  else insertLoop node (path.length + 1) c [] (skipSlash path)

/-- The loop of `invalidate`: the dentry that the path leads to. -/
def targetLoop (c : DentryCache) : Nat → List Str → Str → Option (List Str)
  | 0, parent, _ => some parent
  | fuel + 1, parent, p =>
    if p = [] then some parent
    else
      match nextComponent p with
      | none => none
      | some (name, rest) =>
        if (c.find (parent ++ [name])).isSome then targetLoop c fuel (parent ++ [name]) rest else none

/-- `invalidate`; `invalidate_prefix` is the same function. -/
def invalidate (c : DentryCache) (path : Str) : DentryCache :=
  if path = [] ∨ path = ['/'] then c
  else
    match targetLoop c (path.length + 1) [] (skipSlash path) with
    | none => c
    | some [] => c
    | some target => c.drop target

/-! ## Paths in normal form -/

/-- A name that the cache can hold. -/
structure CacheName (c : Str) : Prop where
  ne_nil : c ≠ []
  no_slash : '/' ∉ c
  short : c.length < dentryMaxName

theorem takeWhile_relPath {c : Str} (hc : CacheName c) :
    (relPath (c :: cs)).takeWhile (· ≠ '/') = c := by
  have hall : ∀ x ∈ c, x ≠ '/' := by
    rintro x hx rfl
    exact hc.no_slash hx
  rw [relPath_cons, takeWhile_append_of_pos (by simpa using hall)]
  split <;> simp

theorem nextComponent_relPath {c : Str} (hc : CacheName c) (cs : List Str) :
    nextComponent (relPath (c :: cs)) = some (c, relPath cs) := by
  have hshort := hc.short
  unfold nextComponent
  rw [takeWhile_relPath hc]
  rw [if_neg (by simp only [hc.ne_nil, false_or]; omega), relPath_cons, drop_left]
  split
  · rename_i hnil
    rw [hnil]
    rfl
  · rfl

theorem relPath_ne_nil {c : Str} (hc : CacheName c) (cs : List Str) : relPath (c :: cs) ≠ [] := by
  rw [relPath_cons]
  simp [hc.ne_nil]

theorem length_le_relPath (h : ∀ c ∈ cs, CacheName c) : cs.length ≤ (relPath cs).length := by
  induction cs with
  | nil => simp
  | cons c cs ih =>
    have hpos : 0 < c.length := length_pos_iff.mpr (h c (by simp)).ne_nil
    have hrest := ih fun d hd => h d (mem_cons_of_mem c hd)
    rw [relPath_cons, length_append, length_cons]
    split
    · rename_i hnil
      simp [hnil]
      omega
    · rw [length_cons]
      omega

/-- A path in normal form is at least as long as its list of components, so the loops get through. -/
theorem length_absPath (h : ∀ c ∈ cs, CacheName c) : ∃ n, (absPath cs).length = n + cs.length := by
  have hlen := length_le_relPath h
  refine ⟨(absPath cs).length - cs.length, ?_⟩
  rw [absPath, length_cons]
  omega

theorem skipSlash_absPath {cs : List Str} : skipSlash (absPath cs) = relPath cs := by
  simp [skipSlash, absPath]

theorem absPath_ne_root (hne : cs ≠ []) (h : ∀ c ∈ cs, CacheName c) :
    ¬ (absPath cs = [] ∨ absPath cs = ['/']) := by
  obtain ⟨c, cs, rfl⟩ := exists_cons_of_ne_nil hne
  have := relPath_ne_nil (h c (by simp)) cs
  simp [absPath, this]

/-! ## The operations on paths in normal form -/

/-- An operation that only reorders the entries of a well-formed cache. -/
structure Reordered (c c' : DentryCache) : Prop where
  ok : c'.Ok
  find : ∀ k, c'.find k = c.find k

theorem Reordered.refl (hok : c.Ok) : Reordered c c := ⟨hok, fun _ => rfl⟩

theorem Reordered.trans {d e : DentryCache} (h : Reordered c d) (h' : Reordered d e) :
    Reordered c e :=
  ⟨h'.ok, fun k => (h'.find k).trans (h.find k)⟩

theorem Reordered.touch (hok : c.Ok) (q : List Str) : Reordered c (PathCache.touch c q) :=
  ⟨hok.touch q, PathCache.find_touch c q⟩

/-- What is above a cached entry is cached. -/
theorem find_isSome_above (hok : c.Ok) {q r : List Str} (hq : q ≠ [])
    (h : (c.find (q ++ r)).isSome) : (c.find q).isSome := by
  have hmem := PathCache.find_isSome.mp h
  exact PathCache.find_isSome.mpr (hok.closed _ hmem q hq (prefix_append q r))

theorem lookupComponent_spec (hok : c.Ok) (parent : List Str) {name : Str} (hne : name ≠ []) :
    (lookupComponent c parent name).2 = c.find (parent ++ [name]) ∧
      Reordered c (lookupComponent c parent name).1 := by
  unfold lookupComponent
  rw [if_neg hne]
  rcases hfind : c.find (parent ++ [name]) with _ | node
  · exact ⟨rfl, Reordered.refl hok⟩
  · exact ⟨rfl, Reordered.touch hok _⟩

/-- Finding a component on the way down makes it the most recently used one. -/
theorem lookupComponent_chain {parent : List Str} {name : Str} {node : VfsNode}
    (hch : c.Chain parent) (hhit : (lookupComponent c parent name).2 = some node) :
    (lookupComponent c parent name).1.Chain (parent ++ [name]) := by
  unfold lookupComponent at hhit ⊢
  split
  · rename_i hnil
    rw [if_pos hnil] at hhit
    cases hhit
  rename_i hne
  rw [if_neg hne] at hhit
  rcases hfind : c.find (parent ++ [name]) with _ | node'
  · rw [hfind] at hhit
    cases hhit
  · exact hch.touch (by rw [hfind]; rfl)

theorem lookupLoop_spec (fuel : Nat) (cs parent : List Str) (result : Option VfsNode) (hok : c.Ok)
    (hcs : ∀ d ∈ cs, CacheName d) :
    (lookupLoop (fuel + cs.length + 1) c parent result (relPath cs)).2 =
        (if cs = [] then result else c.find (parent ++ cs)) ∧
      Reordered c (lookupLoop (fuel + cs.length + 1) c parent result (relPath cs)).1 := by
  induction cs generalizing c parent result with
  | nil => simpa [lookupLoop, relPath] using Reordered.refl hok
  | cons name cs ih =>
    have hname := hcs name (by simp)
    obtain ⟨hfound, hreord⟩ := lookupComponent_spec hok parent hname.ne_nil
    rw [lookupLoop, if_neg (relPath_ne_nil hname cs), nextComponent_relPath hname]
    dsimp only
    rcases hstep : lookupComponent c parent name with ⟨c', _ | node⟩
    · -- nothing is cached below a missing component
      rw [hstep] at hfound hreord
      refine ⟨?_, hreord⟩
      rw [if_neg (cons_ne_nil name cs)]
      by_contra hcon
      have hsome : (c.find ((parent ++ [name]) ++ cs)).isSome := by
        rw [append_assoc, singleton_append]
        exact Option.isSome_iff_ne_none.mpr (Ne.symm hcon)
      have := find_isSome_above hok (by simp) hsome
      rw [← hfound] at this
      cases this
    rw [hstep] at hfound hreord
    have hrest := ih (parent ++ [name]) (some node) hreord.ok
      (fun d hd => hcs d (mem_cons_of_mem name hd))
    refine ⟨hrest.1.trans ?_, hreord.trans hrest.2⟩
    rw [if_neg (cons_ne_nil name cs), hreord.find]
    split
    · rename_i hnil
      rw [hnil]
      exact hfound
    · rw [append_assoc, singleton_append]

/-- `lookup` finds the entry at the path. -/
theorem lookup_spec (hok : c.Ok) (hne : cs ≠ []) (hcs : ∀ d ∈ cs, CacheName d) :
    (lookup c (absPath cs)).2 = c.find cs ∧ Reordered c (lookup c (absPath cs)).1 := by
  obtain ⟨fuel, hfuel⟩ := length_absPath hcs
  have hloop := lookupLoop_spec fuel cs [] none hok hcs
  unfold lookup
  rw [if_neg (absPath_ne_root hne hcs), skipSlash_absPath, hfuel]
  rw [if_neg hne, nil_append] at hloop
  exact hloop

/-- What a walk that stores `node` at `q` may leave behind. -/
structure Stored (c c' : DentryCache) (q : List Str) (node : VfsNode) : Prop where
  ok : c'.Ok
  find : ∀ k x, c'.find k = some x → (k = q ∧ x = node) ∨ c.find k = some x

theorem Reordered.stored {c' : DentryCache} (h : Reordered c c') (q : List Str) (node : VfsNode) :
    Stored c c' q node :=
  ⟨h.ok, fun k x hx => Or.inr (by rw [← h.find]; exact hx)⟩

theorem insertComponent_spec {parent : List Str} {name : Str} (hok : c.Ok) (hch : c.Chain parent)
    (hdepth : parent.length < dentryMaxEntries) (hname : CacheName name) (node : VfsNode) :
    (insertComponent c parent name node).2 = some (parent ++ [name]) ∧
      Stored c (insertComponent c parent name node).1 (parent ++ [name]) node ∧
      (insertComponent c parent name node).1.Chain (parent ++ [name]) := by
  have hshort := hname.short
  obtain ⟨c', hput, hok', hch', -, hfind⟩ := PathCache.putEvicting_spec hok hch hdepth
  unfold insertComponent
  rw [if_neg hname.ne_nil, if_neg (by omega), hput]
  exact ⟨rfl, ⟨hok', hfind⟩, hch'⟩

/-- What is left of a path in normal form after its first name. -/
theorem drop_relPath {name : Str} :
    (relPath (name :: cs)).drop name.length = if cs = [] then [] else '/' :: relPath cs := by
  rw [relPath_cons, drop_left]

section

variable (hok : c.Ok) (hcs : ∀ d ∈ cs, CacheName d)

include hok hcs

theorem insertLoop_spec (fuel : Nat) (parent : List Str) (node : VfsNode) (hch : c.Chain parent)
    (hdepth : parent.length + cs.length ≤ dentryMaxEntries) :
    Stored c (insertLoop node (fuel + cs.length + 1) c parent (relPath cs)) (parent ++ cs) node := by
  induction cs generalizing c parent with
  | nil => simpa [insertLoop, relPath] using (Reordered.refl hok).stored parent node
  | cons name cs ih =>
    rw [length_cons] at hdepth
    have hname := hcs name (by simp)
    rw [insertLoop, if_neg (relPath_ne_nil hname cs), nextComponent_relPath hname]
    dsimp only
    rw [drop_relPath]
    by_cases hlast : cs = []
    · rw [if_pos hlast, if_pos rfl, hlast]
      exact (insertComponent_spec hok hch (by omega) hname node).2.1
    rw [if_neg hlast, if_neg (cons_ne_nil _ _)]
    obtain ⟨-, hreord⟩ := lookupComponent_spec hok parent hname.ne_nil
    rcases hstep : lookupComponent c parent name with ⟨c', _ | found⟩
    · rw [hstep] at hreord
      exact hreord.stored _ node
    have hch' := lookupComponent_chain hch (by rw [hstep])
    rw [hstep] at hreord hch'
    have hrest := ih hreord.ok (fun d hd => hcs d (mem_cons_of_mem name hd)) (parent ++ [name]) hch'
      (by rw [length_append, length_singleton]; omega)
    refine ⟨hrest.ok, ?_⟩
    intro k x hx
    rcases hrest.find k x hx with ⟨hk, hxn⟩ | hold
    · rw [append_assoc, singleton_append] at hk
      exact Or.inl ⟨hk, hxn⟩
    · rw [hreord.find] at hold
      exact Or.inr hold

/-- `insert` stores at most the entry it is given. -/
theorem insert_spec (hdepth : cs.length ≤ dentryMaxEntries) (node : VfsNode) :
    Stored c (insert c (absPath cs) node) cs node := by
  unfold insert
  split
  · exact (Reordered.refl hok).stored cs node
  obtain ⟨fuel, hfuel⟩ := length_absPath hcs
  rw [skipSlash_absPath, hfuel]
  exact insertLoop_spec hok hcs fuel [] node (PathCache.chain_nil c) (by simpa using hdepth)

theorem targetLoop_spec (fuel : Nat) (parent : List Str) :
    targetLoop c (fuel + cs.length + 1) parent (relPath cs) =
      if cs = [] ∨ (c.find (parent ++ cs)).isSome then some (parent ++ cs) else none := by
  induction cs generalizing parent with
  | nil => simp [targetLoop, relPath]
  | cons name cs ih =>
    have hname := hcs name (by simp)
    rw [targetLoop, if_neg (relPath_ne_nil hname cs), nextComponent_relPath hname]
    dsimp only
    rw [length_cons, ← Nat.add_assoc, ih (fun d hd => hcs d (mem_cons_of_mem name hd)) (parent ++ [name]),
      append_assoc, singleton_append]
    by_cases hhere : (c.find (parent ++ [name])).isSome
    · rw [if_pos hhere]
      by_cases hnil : cs = []
      · simp [hnil, hhere]
      · simp [hnil]
    rw [if_neg hhere, if_neg]
    rintro (hnil | hsome)
    · cases hnil
    · refine hhere (find_isSome_above hok (r := cs) (by simp) ?_)
      rwa [append_assoc, singleton_append]

/-- `invalidate` leaves nothing at or below the path, and adds nothing. -/
theorem invalidate_spec (hne : cs ≠ []) :
    (invalidate c (absPath cs)).Ok ∧
      ∀ k x, (invalidate c (absPath cs)).find k = some x → c.find k = some x ∧ ¬ cs <+: k := by
  obtain ⟨fuel, hfuel⟩ := length_absPath hcs
  unfold invalidate
  rw [if_neg (absPath_ne_root hne hcs), skipSlash_absPath, hfuel, targetLoop_spec hok hcs fuel [],
    nil_append]
  by_cases hhere : (c.find cs).isSome
  · obtain ⟨d, ds, rfl⟩ := exists_cons_of_ne_nil hne
    rw [if_pos (Or.inr hhere)]
    refine ⟨hok.drop _, ?_⟩
    intro k x hx
    rw [PathCache.find_drop] at hx
    split at hx
    · cases hx
    · rename_i hnot
      exact ⟨hx, hnot⟩
  · rw [if_neg (not_or.mpr ⟨hne, hhere⟩)]
    refine ⟨hok, fun k x hx => ⟨hx, ?_⟩⟩
    rintro ⟨r, rfl⟩
    exact hhere (find_isSome_above hok hne (by rw [hx]; rfl))

end

end DentryCache

end Vespera.Vfs
