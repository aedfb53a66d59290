import Mathlib.Algebra.Order.BigOperators.Group.Finset
import Vespera.Lib.Run
import Vespera.Lib.Sums
import Vespera.Realm.HandleTransfer

/-! # References and handle entries

The handle tables of several realms, with the counts that the `acquire` and `destroy` callbacks
of their resources keep. A resource is created with one reference and put into a table at once;
`do_dup` and `transfer_handle_to_realm` take a reference before they add an entry and give it back
if they cannot.

* `HandleSys.references_balance`: after every sequence of calls a resource has as many references
  as there are entries that name it, in all tables together, and it was freed once if there are
  none left, and not at all otherwise. A `dup` or transfer that fails changes nothing, unless it
  is a `dup2` or `dup3` onto an entry that is held more than once.
* `HandleSys.failed_dup_counts`: in that case it takes away one reference of the entry.
-/

namespace Vespera.Realms

open Klib Function Lib HandleTable

/-! ## Resources -/

/-- The resources that were created so far, their counts, and those that were freed. -/
structure Resources where
  refs : Nat → Nat
  next : Nat
  freed : List Nat

namespace Resources

/-- A new resource, with one reference. -/
def create (res : Resources) : Resources :=
  { res with refs := update res.refs res.next 1, next := res.next + 1 }

/-- The `acquire` callback. -/
def acquire (res : Resources) (r : Nat) : Resources :=
  { res with refs := update res.refs r (res.refs r + 1) }

/-- The `destroy` callback: the last one frees the resource. -/
def destroy (res : Resources) (r : Nat) : Resources :=
  { res with
    refs := update res.refs r (res.refs r - 1)
    freed := if res.refs r - 1 = 0 then r :: res.freed else res.freed }

/-- Giving a reference back at once is as if it had not been taken. -/
theorem destroy_acquire {res : Resources} {r : Nat} (h : 0 < res.refs r) :
    (res.acquire r).destroy r = res := by
  simp [acquire, destroy, Nat.ne_of_gt h]

end Resources

/-! ## Calls on one table -/

def kInvalidHandle : UInt64 := 0xFFFFFFFFFFFFFFFF

namespace HandleTable

/-- One turn of the loop of `HandleTable::clear`. -/
def clearSlot (s : HandleTable Nat × Resources) (slot : Nat) : HandleTable Nat × Resources :=
  match s.1.entries slot with
  | none => s
  | some he => (s.1.setSlot slot none, s.2.destroy he.resource)

variable (t : HandleTable Nat)

def clear (res : Resources) : HandleTable Nat × Resources :=
  (List.range maxHandlesPerRealm).foldl clearSlot (t, res)

/-- `HandleTable::release` with the callback it runs. -/
def releaseCounted (res : Resources) (hid : UInt64) : HandleTable Nat × Resources :=
  match t.release hid with
  | (t, none) => (t, res)
  | (t, some r) => (t, res.destroy r)

/-- A new resource goes into a table. Without a slot the caller gives its reference back. -/
def addCreated (res : Resources) (type : HandleType) (caps : UInt64)
    (transferable : Bool) : HandleTable Nat × Resources × Except Error UInt64 :=
  match t.add type res.next caps transferable with
  | .error e => (t, res.create.destroy res.next, .error e)
  | .ok (t, hid) => (t, res.create, .ok hid)

/-- The same for a handle of a fixed number. -/
def addAtCreated (res : Resources) (fixedId : UInt64) (type : HandleType)
    (caps : UInt64) (transferable : Bool) : HandleTable Nat × Resources × Except Error UInt64 :=
  match t.addAt fixedId type res.next caps transferable with
  | .error e => (t, res.create.destroy res.next, .error e)
  | .ok t => (t, res.create, .ok fixedId)

/-- The second half of `do_dup`: a new entry for what `src` names, or the reference back. -/
def dupEntry (hasAcquire : Nat → Bool) (t : HandleTable Nat) (res : Resources)
    (src : HandleEntry Nat) (dstHid : UInt64) :
    HandleTable Nat × Resources × Except Error UInt64 :=
  let result :=
    if dstHid = kInvalidHandle then
      t.add src.type src.resource src.capabilities src.transferable
    else
      (t.addAt dstHid src.type src.resource src.capabilities src.transferable).map (·, dstHid)
  match result with
  | .error e =>
    (t, if hasAcquire src.resource then res.destroy src.resource else res, .error e)
  | .ok (t, hid) => (t, res, .ok hid)

def doDup (hasAcquire : Nat → Bool) (t : HandleTable Nat) (res : Resources)
    (srcHid dstHid : UInt64) : HandleTable Nat × Resources × Except Error UInt64 :=
  match t.lookup srcHid with
  | none => (t, res, .error .badH)
  | some src =>
    if dstHid ≠ kInvalidHandle ∧ dstHid = srcHid then (t, res, .ok srcHid)
    else
      let res := if hasAcquire src.resource then res.acquire src.resource else res
      if dstHid ≠ kInvalidHandle ∧ (t.lookup dstHid).isSome then
        let s := t.releaseCounted res dstHid
        dupEntry hasAcquire s.1 s.2 src dstHid
      else dupEntry hasAcquire t res src dstHid

end HandleTable

/-- `transfer_handle_to_realm` with the callbacks it runs. -/
def transferCounted (hasAcquire : Nat → Bool) (src : HandleEntry Nat) (dst : HandleTable Nat)
    (res : Resources) (capsMask : UInt64) : HandleTable Nat × Resources × Except Error UInt64 :=
  if src.transferable = false then (dst, res, .error .acces)
  else
    let granted := src.capabilities &&& capsMask
    if granted = 0 then (dst, res, .error .acces)
    else if hasAcquire src.resource = false then (dst, res, .error .inval)
    else
      let res := res.acquire src.resource
      match dst.add src.type src.resource granted true with
      | .error e => (dst, res.destroy src.resource, .error e)
      | .ok (dst, hid) => (dst, res, .ok hid)

/-! ## All tables -/

/-- The tables of `n` realms and the resources they share. -/
structure HandleSys (n : Nat) where
  tables : Fin n → HandleTable Nat
  res : Resources

/-- Calls on handles. -/
inductive HandleOp (n : Nat) where
  | add (realm : Fin n) (type : HandleType) (caps : UInt64) (transferable : Bool)
  | addAt (realm : Fin n) (fixedId : UInt64) (type : HandleType) (caps : UInt64)
      (transferable : Bool)
  | acquire (realm : Fin n) (hid : UInt64)
  | release (realm : Fin n) (hid : UInt64)
  | dup (realm : Fin n) (src : UInt64)
  | dup2 (realm : Fin n) (src dst : UInt64)
  | dup3 (realm : Fin n) (src dst : UInt64)
  | transfer (realm : Fin n) (hid : UInt64) (dst : Fin n) (capsMask : UInt64)
  | clear (realm : Fin n)
deriving Repr, DecidableEq

namespace HandleSys

variable {n : Nat}

def boot (n : Nat) : HandleSys n := ⟨fun _ => .init, ⟨fun _ => 0, 0, []⟩⟩

/-- The system after a call has changed one table and the resources. -/
def put (st : HandleSys n) (realm : Fin n) (t : HandleTable Nat) (res : Resources) : HandleSys n :=
  ⟨update st.tables realm t, res⟩

/-- One call. A transfer starts from a handle of the calling realm. -/
def handleStep (hasAcquire : Nat → Bool) (st : HandleSys n) :
    HandleOp n → HandleSys n × Except Error UInt64
  | .add realm type caps transferable =>
    let r := (st.tables realm).addCreated st.res type caps transferable
    (st.put realm r.1 r.2.1, r.2.2)
  | .addAt realm fixedId type caps transferable =>
    let r := (st.tables realm).addAtCreated st.res fixedId type caps transferable
    (st.put realm r.1 r.2.1, r.2.2)
  | .acquire realm hid => (st.put realm ((st.tables realm).acquire hid) st.res, .ok hid)
  | .release realm hid =>
    let r := (st.tables realm).releaseCounted st.res hid
    (st.put realm r.1 r.2, .ok hid)
  | .dup realm src =>
    let r := (st.tables realm).doDup hasAcquire st.res src kInvalidHandle
    (st.put realm r.1 r.2.1, r.2.2)
  | .dup2 realm src dst =>
    let r := (st.tables realm).doDup hasAcquire st.res src dst
    (st.put realm r.1 r.2.1, r.2.2)
  | .dup3 realm src dst =>
    if src = dst then (st, .error .inval)
    else
      let r := (st.tables realm).doDup hasAcquire st.res src dst
      (st.put realm r.1 r.2.1, r.2.2)
  | .transfer realm hid dst capsMask =>
    match (st.tables realm).lookup hid with
    | none => (st, .error .badH)
    | some src =>
      let r := transferCounted hasAcquire src (st.tables dst) st.res capsMask
      (st.put dst r.1 r.2.1, r.2.2)
  | .clear realm =>
    let r := (st.tables realm).clear st.res
    (st.put realm r.1 r.2, .ok 0)

end HandleSys

/-! ## Counting entries -/

/-- One if the slot names the resource. -/
def nameCount (e : Option (HandleEntry Nat)) (r : Nat) : Nat :=
  match e with
  | none => 0
  | some he => if r = he.resource then 1 else 0

/-- How many entries of a table name a resource. -/
def HandleTable.naming (t : HandleTable Nat) (r : Nat) : Nat :=
  ∑ slot ∈ Finset.range maxHandlesPerRealm, nameCount (t.entries slot) r

theorem naming_setSlot (t : HandleTable Nat) {slot : Nat} (hslot : slot < maxHandlesPerRealm)
    (e : Option (HandleEntry Nat)) (r : Nat) :
    (t.setSlot slot e).naming r + nameCount (t.entries slot) r = t.naming r + nameCount e r := by
  have hsum := sum_change (f := fun s => nameCount (t.entries s) r)
    (g := fun s => nameCount ((t.setSlot slot e).entries s) r) (Finset.mem_range.mpr hslot) (by
      intro j _ hj
      simp only [setSlot_entries_of_ne hj])
  simpa [naming] using hsum

/-- One more reference to `r` in somebody's hands. -/
def plus (held : Nat → Nat) (r : Nat) : Nat → Nat := fun x => held x + if x = r then 1 else 0

/-- The references to a resource are those held elsewhere and one for each entry of the table; a
resource was freed once if it has none left, and not at all otherwise. -/
structure Accounted (held : Nat → Nat) (t : HandleTable Nat) (res : Resources) : Prop where
  refs : ∀ r, res.refs r = held r + t.naming r
  fresh : ∀ r, res.next ≤ r → res.refs r = 0
  freed : ∀ r, res.freed.count r = if r < res.next ∧ res.refs r = 0 then 1 else 0

namespace Accounted

variable {held : Nat → Nat} {t : HandleTable Nat} {res : Resources} {hasAcquire : Nat → Bool} {r slot : Nat}

section

variable (h : Accounted held t res)

include h

/-- A resource with a reference was created. -/
theorem lt_next (hr : 0 < res.refs r) : r < res.next := by
  by_contra hle
  have hzero := h.fresh r (Nat.le_of_not_lt hle)
  omega

/-- The creator holds the first reference. -/
theorem create : Accounted (plus held res.next) t res.create where
  refs := by
    intro r
    have hr := h.refs r
    by_cases hnew : r = res.next
    · have hzero := h.fresh r (Nat.le_of_eq hnew.symm)
      simp only [Resources.create, plus, hnew, update_self, if_true]
      rw [hnew] at hr hzero
      omega
    · simp only [Resources.create, plus, update_of_ne hnew, if_neg hnew]
      omega
  fresh := by
    intro r hr
    have hlt : res.next + 1 ≤ r := hr
    have hne : r ≠ res.next := by omega
    simp only [Resources.create, update_of_ne hne]
    exact h.fresh r (by omega)
  freed := by
    intro r
    have hr := h.freed r
    by_cases hnew : r = res.next
    · simp only [Resources.create, hnew, update_self]
      rw [hnew, if_neg (by omega)] at hr
      rw [hr, if_neg (by omega)]
    · have hiff : r < res.next + 1 ↔ r < res.next := by omega
      simp only [Resources.create, update_of_ne hnew, hiff]
      exact hr

/-- Taking a reference to a resource that has one. -/
theorem acquire (hr : 0 < res.refs r) : Accounted (plus held r) t (res.acquire r) where
  refs := by
    intro x
    have hx := h.refs x
    by_cases hxr : x = r
    · simp only [Resources.acquire, plus, hxr, update_self, if_true]
      rw [hxr] at hx
      omega
    · simp only [Resources.acquire, plus, update_of_ne hxr, if_neg hxr]
      omega
  fresh := by
    intro x hx
    have hne : x ≠ r := by
      have hlt := h.lt_next hr
      have hle : res.next ≤ x := hx
      omega
    simp only [Resources.acquire, update_of_ne hne]
    exact h.fresh x hx
  freed := by
    intro x
    have hx := h.freed x
    by_cases hxr : x = r
    · simp only [Resources.acquire, hxr, update_self]
      rw [hxr, if_neg (by omega)] at hx
      rw [hx, if_neg (by omega)]
    · simp only [Resources.acquire, update_of_ne hxr]
      exact hx

end

/-- Giving a reference back. -/
theorem destroy (h : Accounted (plus held r) t res) : Accounted held t (res.destroy r) := by
  have hpos : 0 < res.refs r := by
    have hr := h.refs r
    simp only [plus, if_true] at hr
    omega
  have hlt := h.lt_next hpos
  refine ⟨?_, ?_, ?_⟩
  · intro x
    have hx := h.refs x
    by_cases hxr : x = r
    · simp only [Resources.destroy, hxr, update_self]
      simp only [plus, hxr, if_true] at hx
      omega
    · simp only [Resources.destroy, update_of_ne hxr]
      simp only [plus, if_neg hxr] at hx
      omega
  · intro x hx
    have hne : x ≠ r := by
      have hle : res.next ≤ x := hx
      omega
    simp only [Resources.destroy, update_of_ne hne]
    exact h.fresh x hx
  intro x
  have hx := h.freed x
  by_cases hxr : x = r
  -- the resource was not freed before; it is now if this was the last reference
  · simp only [Resources.destroy, hxr, update_self]
    rw [hxr, if_neg (by omega)] at hx
    by_cases hlast : res.refs r - 1 = 0
    · rw [if_pos hlast, if_pos ⟨hlt, hlast⟩, List.count_cons_self, hx]
    · rw [if_neg hlast, if_neg (fun hc => hlast hc.2), hx]
  have hcount : List.count x (if res.refs r - 1 = 0 then r :: res.freed else res.freed) =
      List.count x res.freed := by
    split
    · exact List.count_cons_of_ne (Ne.symm hxr)
    · rfl
  simp only [Resources.destroy, update_of_ne hxr, hcount]
  exact hx

/-- An entry takes the place of another, and what is held changes accordingly. -/
theorem replace {held' : Nat → Nat} (h : Accounted held t res) (hslot : slot < maxHandlesPerRealm)
    {e : Option (HandleEntry Nat)}
    (hheld : ∀ r, held' r + nameCount e r = held r + nameCount (t.entries slot) r) :
    Accounted held' (t.setSlot slot e) res where
  refs := by
    intro r
    have hr := h.refs r
    have hcount := naming_setSlot t hslot e r
    have := hheld r
    omega
  fresh := h.fresh
  freed := h.freed

/-- A reference goes into a free slot. -/
theorem fill (hslot : slot < maxHandlesPerRealm) (hfree : t.entries slot = none)
    {he : HandleEntry Nat} (h : Accounted (plus held he.resource) t res) :
    Accounted held (t.setSlot slot (some he)) res :=
  h.replace hslot fun r => by rw [hfree]; rfl

section Releases

variable (h : Accounted held t res)

include h

/-- An entry goes away, and its reference is in the hands of who removed it. -/
theorem take (hslot : slot < maxHandlesPerRealm)
    {he : HandleEntry Nat} (hentry : t.entries slot = some he) :
    Accounted (plus held he.resource) (t.setSlot slot none) res :=
  h.replace hslot fun r => by rw [hentry]; rfl

/-- An entry changes, but not the resource it names. -/
theorem retag (hslot : slot < maxHandlesPerRealm)
    {he he' : HandleEntry Nat} (hentry : t.entries slot = some he)
    (hsame : he'.resource = he.resource) : Accounted held (t.setSlot slot (some he')) res :=
  h.replace hslot fun r => by rw [hentry, nameCount, hsame, nameCount]

/-- A resource that an entry names has a reference. -/
theorem refs_pos {hid : UInt64} {he : HandleEntry Nat}
    (hfound : t.lookup hid = some he) : 0 < res.refs he.resource := by
  obtain ⟨hslot, hentry, -⟩ := lookup_eq_some.mp hfound
  have hcount := naming_setSlot t hslot none he.resource
  rw [hentry] at hcount
  simp only [nameCount, if_true] at hcount
  have hr := h.refs he.resource
  omega

/-! ### The calls on one table -/

theorem acquireHandle (hid : UInt64) : Accounted held (t.acquire hid) res := by
  cases hfound : t.lookup hid with
  | none =>
    rw [acquire_of_lookup_none hfound]
    exact h
  | some he =>
    obtain ⟨hslot, hentry, -⟩ := lookup_eq_some.mp hfound
    rw [HandleTable.acquire, hfound]
    exact h.retag hslot hentry rfl

theorem releaseCounted (hid : UInt64) :
    Accounted held (t.releaseCounted res hid).1 (t.releaseCounted res hid).2 := by
  rw [HandleTable.releaseCounted, release]
  cases hfound : t.lookup hid with
  | none => exact h
  | some he =>
    obtain ⟨hslot, hentry, -⟩ := lookup_eq_some.mp hfound
    dsimp only
    by_cases hlast : he.refcount - 1 = 0
    · rw [if_pos hlast]
      exact (h.take hslot hentry).destroy
    · rw [if_neg hlast]
      exact h.retag hslot hentry rfl

theorem clearSlot (hslot : slot < maxHandlesPerRealm) :
    Accounted held (HandleTable.clearSlot (t, res) slot).1
      (HandleTable.clearSlot (t, res) slot).2 := by
  rw [HandleTable.clearSlot]
  split
  · exact h
  · rename_i he hentry
    exact (h.take hslot hentry).destroy

end Releases

theorem clear (h : Accounted held t res) : Accounted held (t.clear res).1 (t.clear res).2 := by
  have hfold : ∀ (slots : List Nat) (t : HandleTable Nat) (res : Resources),
      (∀ slot ∈ slots, slot < maxHandlesPerRealm) → Accounted held t res →
      Accounted held (slots.foldl HandleTable.clearSlot (t, res)).1
        (slots.foldl HandleTable.clearSlot (t, res)).2 := by
    intro slots
    induction slots with
    | nil => exact fun _ _ _ h => h
    | cons slot slots ih =>
      intro t res hslots h
      have hone := h.clearSlot (hslots slot List.mem_cons_self)
      exact ih _ _ (fun s hs => hslots s (List.mem_cons_of_mem _ hs)) hone
  exact hfold _ t res (fun slot hslot => List.mem_range.mp hslot) h

/-- A reference in the hands of the caller goes into the table, or stays with the caller. -/
theorem add {type : HandleType} {caps : UInt64} {transferable : Bool}
    (h : Accounted (plus held r) t res) {t' : HandleTable Nat} {hid : UInt64}
    (hadd : t.add type r caps transferable = .ok (t', hid)) : Accounted held t' res := by
  rw [HandleTable.add] at hadd
  split at hadd
  · cases hadd
  rename_i slot hslot
  obtain ⟨hlt, hfree⟩ := findFreeSlot_some hslot
  cases hadd
  exact h.fill hlt hfree

theorem addAt {fixedId : UInt64} {type : HandleType} {caps : UInt64}
    {transferable : Bool} (h : Accounted (plus held r) t res) {t' : HandleTable Nat}
    (hadd : t.addAt fixedId type r caps transferable = .ok t') : Accounted held t' res := by
  simp only [HandleTable.addAt] at hadd
  split_ifs at hadd with hslot htaken
  cases hadd
  exact h.fill (Nat.lt_of_not_le hslot) (by simpa using htaken)

theorem addCreated (h : Accounted held t res) (type : HandleType) (caps : UInt64)
    (transferable : Bool) : Accounted held (t.addCreated res type caps transferable).1
      (t.addCreated res type caps transferable).2.1 := by
  rw [HandleTable.addCreated]
  split
  · exact h.create.destroy
  · rename_i t' hid hadd
    exact h.create.add hadd

theorem addAtCreated (h : Accounted held t res) (fixedId : UInt64) (type : HandleType)
    (caps : UInt64) (transferable : Bool) :
    Accounted held (t.addAtCreated res fixedId type caps transferable).1
      (t.addAtCreated res fixedId type caps transferable).2.1 := by
  rw [HandleTable.addAtCreated]
  split
  · exact h.create.destroy
  · rename_i t' hadd
    exact h.create.addAt hadd

theorem dupEntry {src : HandleEntry Nat} (hacq : hasAcquire src.resource)
    (h : Accounted (plus held src.resource) t res) (dstHid : UInt64) :
    Accounted held (t.dupEntry hasAcquire res src dstHid).1
      (t.dupEntry hasAcquire res src dstHid).2.1 := by
  rw [HandleTable.dupEntry]
  by_cases hinv : dstHid = kInvalidHandle
  · simp only [if_pos hinv]
    cases hadd : t.add src.type src.resource src.capabilities src.transferable with
    | error e =>
      rw [if_pos hacq]
      exact h.destroy
    | ok r => exact h.add hadd
  simp only [if_neg hinv]
  cases hadd : t.addAt dstHid src.type src.resource src.capabilities src.transferable with
  | error e =>
    rw [if_pos hacq]
    exact h.destroy
  | ok t' => exact h.addAt hadd

theorem doDup (hacq : ∀ r, hasAcquire r) (h : Accounted held t res) (srcHid dstHid : UInt64) :
    Accounted held (t.doDup hasAcquire res srcHid dstHid).1
      (t.doDup hasAcquire res srcHid dstHid).2.1 := by
  rw [HandleTable.doDup]
  cases hfound : t.lookup srcHid with
  | none => exact h
  | some src =>
    dsimp only
    split
    · exact h
    rw [if_pos (hacq src.resource)]
    have htaken := h.acquire (h.refs_pos hfound)
    split
    · exact (htaken.releaseCounted dstHid).dupEntry (hacq _) dstHid
    · exact htaken.dupEntry (hacq _) dstHid

theorem transferCounted {src : HandleEntry Nat}
    (h : Accounted held t res) (hpos : 0 < res.refs src.resource) (capsMask : UInt64) :
    Accounted held (Realms.transferCounted hasAcquire src t res capsMask).1
      (Realms.transferCounted hasAcquire src t res capsMask).2.1 := by
  rw [Realms.transferCounted]
  split
  · exact h
  dsimp only
  split
  · exact h
  split
  · exact h
  split
  · exact (h.acquire hpos).destroy
  · rename_i t' hid hadd
    exact (h.acquire hpos).add hadd

end Accounted

/-! ## Runs -/

namespace HandleSys

variable {n : Nat} {st : HandleSys n}

/-- How many entries of all tables name a resource. -/
def entriesNaming (st : HandleSys n) (r : Nat) : Nat := ∑ i, (st.tables i).naming r

/-- The same, without the table of one realm. -/
def others (st : HandleSys n) (realm : Fin n) (r : Nat) : Nat :=
  ∑ i ∈ Finset.univ.erase realm, (st.tables i).naming r

/-- A resource has as many references as entries that name it; without any it was freed, once,
and with some it was not. -/
structure Balanced (st : HandleSys n) : Prop where
  refs : ∀ r, st.res.refs r = st.entriesNaming r
  fresh : ∀ r, st.res.next ≤ r → st.res.refs r = 0
  freed : ∀ r, st.res.freed.count r = if r < st.res.next ∧ st.entriesNaming r = 0 then 1 else 0

theorem entriesNaming_eq {realm : Fin n} {r : Nat} :
    st.entriesNaming r = st.others realm r + (st.tables realm).naming r := by
  rw [entriesNaming, others, Nat.add_comm]
  exact (Finset.add_sum_erase _ (fun i => (st.tables i).naming r) (Finset.mem_univ realm)).symm

theorem others_put {realm : Fin n} {t : HandleTable Nat} {res : Resources}
    {r : Nat} : (st.put realm t res).others realm r = st.others realm r := by
  refine Finset.sum_congr rfl ?_
  intro i hi
  simp only [put, update_of_ne (Finset.ne_of_mem_erase hi)]

/-- What the rest of the system holds, seen from one table. -/
theorem Balanced.accounted (h : st.Balanced) (realm : Fin n) :
    Accounted (st.others realm) (st.tables realm) st.res where
  refs := by
    intro r
    rw [h.refs r, entriesNaming_eq]
  fresh := h.fresh
  freed := by
    intro r
    rw [h.freed r, h.refs r]

/-- A call on one table. -/
theorem Balanced.put {realm : Fin n} {t : HandleTable Nat} {res : Resources}
    (h : Accounted (st.others realm) t res) : (st.put realm t res).Balanced := by
  have hrefs : ∀ r, res.refs r = (st.put realm t res).entriesNaming r := by
    intro r
    rw [h.refs r, entriesNaming_eq, others_put]
    simp only [HandleSys.put, update_self]
  refine ⟨hrefs, h.fresh, ?_⟩
  intro r
  rw [← hrefs r]
  exact h.freed r

theorem balanced_boot : (boot n).Balanced := by
  have hnone : ∀ r, (boot n).entriesNaming r = 0 := by
    intro r
    refine Finset.sum_eq_zero ?_
    intro i _
    exact Finset.sum_eq_zero (fun slot _ => rfl)
  refine ⟨fun r => (hnone r).symm, fun _ _ => rfl, ?_⟩
  intro r
  rw [if_neg (fun hr => Nat.not_lt_zero r hr.1)]
  rfl

/-- Every call keeps the balance. -/
theorem Balanced.step {hasAcquire : Nat → Bool} (hacq : ∀ r, hasAcquire r) (h : st.Balanced)
    (op : HandleOp n) : (handleStep hasAcquire st op).1.Balanced := by
  cases op with
  | add realm type caps transferable =>
    exact .put ((h.accounted realm).addCreated type caps transferable)
  | addAt realm fixedId type caps transferable =>
    exact .put ((h.accounted realm).addAtCreated fixedId type caps transferable)
  | acquire realm hid => exact .put ((h.accounted realm).acquireHandle hid)
  | release realm hid => exact .put ((h.accounted realm).releaseCounted hid)
  | dup realm src => exact .put ((h.accounted realm).doDup hacq src kInvalidHandle)
  | dup2 realm src dst => exact .put ((h.accounted realm).doDup hacq src dst)
  | dup3 realm src dst =>
    rw [handleStep]
    split
    · exact h
    · exact .put ((h.accounted realm).doDup hacq src dst)
  | transfer realm hid dst capsMask =>
    rw [handleStep]
    split
    · exact h
    · rename_i src hfound
      have hpos := (h.accounted realm).refs_pos hfound
      exact .put ((h.accounted dst).transferCounted hpos capsMask)
  | clear realm => exact .put (h.accounted realm).clear

/-! ### Calls that fail -/

/-- `dup`, `dup2`, `dup3` and transfers. -/
def Copies : HandleOp n → Prop
  | .dup _ _ | .dup2 _ _ _ | .dup3 _ _ _ | .transfer _ _ _ _ => True
  | _ => False

/-- A copy onto an entry of another handle that is held more than once, for instance by a message
that is on its way. -/
def OntoHeld (st : HandleSys n) : HandleOp n → Prop
  | .dup2 realm src dst | .dup3 realm src dst =>
    dst ≠ kInvalidHandle ∧ dst ≠ src ∧ ((st.tables realm).lookup src).isSome ∧
      ∃ he, (st.tables realm).lookup dst = some he ∧ 2 ≤ he.refcount
  | _ => False

/-- If the call fails, the system is as before: all tables with the counts of their entries, and
the counts of all resources. -/
def FailsCleanly (hasAcquire : Nat → Bool) (st : HandleSys n) (op : HandleOp n) : Prop :=
  ∀ e, (handleStep hasAcquire st op).2 = .error e → (handleStep hasAcquire st op).1 = st

@[simp] theorem put_self {st : HandleSys n} {realm : Fin n} :
    st.put realm (st.tables realm) st.res = st := by
  simp [put]

end HandleSys

namespace HandleTable

variable {hasAcquire : Nat → Bool} {t : HandleTable Nat} {res : Resources} {src : HandleEntry Nat}
  {dstHid : UInt64}

/-- A reference that cannot be placed is given back. -/
theorem dupEntry_error {e : Error} (hacq : hasAcquire src.resource)
    (h : (t.dupEntry hasAcquire res src dstHid).2.2 = .error e) :
    (t.dupEntry hasAcquire res src dstHid).1 = t ∧
      (t.dupEntry hasAcquire res src dstHid).2.1 = res.destroy src.resource := by
  rw [dupEntry] at h ⊢
  generalize (if dstHid = kInvalidHandle then
      t.add src.type src.resource src.capabilities src.transferable
    else
      (t.addAt dstHid src.type src.resource src.capabilities src.transferable).map (·, dstHid)) =
    result at h ⊢
  cases result with
  | error e => exact ⟨rfl, if_pos hacq⟩
  | ok r => cases h

/-- A handle that was just removed can be taken. -/
theorem dupEntry_removed (hinv : dstHid ≠ kInvalidHandle)
    (hslot : slotOf dstHid < maxHandlesPerRealm) (hfree : t.entries (slotOf dstHid) = none) :
    (t.dupEntry hasAcquire res src dstHid).2.2 = .ok dstHid := by
  rw [dupEntry]
  simp [hinv, addAt, hfree, Nat.not_le_of_lt hslot, Except.map]

/-- An entry that is still there cannot be replaced. -/
theorem dupEntry_taken (hasAcquire : Nat → Bool) (res : Resources)
    (src : HandleEntry Nat) (hinv : dstHid ≠ kInvalidHandle)
    {he : HandleEntry Nat} (htaken : t.entries (slotOf dstHid) = some he) :
    (t.dupEntry hasAcquire res src dstHid).2.2 = .error .badH := by
  rw [dupEntry]
  simp [hinv, addAt, htaken, Except.map]

/-- `do_dup` that fails, unless it is onto an entry that is held more than once. -/
theorem doDup_error {srcHid : UInt64} {e : Error} (hacq : ∀ r, hasAcquire r)
    (hpos : ∀ src, t.lookup srcHid = some src → 0 < res.refs src.resource)
    (hheld : ∀ he, dstHid ≠ kInvalidHandle → dstHid ≠ srcHid → (t.lookup srcHid).isSome →
      t.lookup dstHid = some he → he.refcount < 2)
    (h : (t.doDup hasAcquire res srcHid dstHid).2.2 = .error e) :
    (t.doDup hasAcquire res srcHid dstHid).1 = t ∧
      (t.doDup hasAcquire res srcHid dstHid).2.1 = res := by
  rw [doDup] at h ⊢
  cases hfound : t.lookup srcHid with
  | none => exact ⟨rfl, rfl⟩
  | some src =>
    simp only [hfound, hacq, if_true] at h ⊢
    split at h
    · cases h
    rename_i hdiff
    rw [if_neg hdiff]
    split at h
    · rename_i hreplace
      obtain ⟨hinv, hsome⟩ := hreplace
      obtain ⟨he, hdst⟩ := Option.isSome_iff_exists.mp hsome
      have hne : dstHid ≠ srcHid := fun heq => hdiff ⟨hinv, heq⟩
      have hcount := hheld he hinv hne (by rw [hfound]; rfl) hdst
      obtain ⟨hslot, -, -⟩ := lookup_eq_some.mp hdst
      -- the last reference of the entry: its slot is free, and the copy succeeds
      have hgone : (t.releaseCounted (res.acquire src.resource) dstHid).1.entries
          (slotOf dstHid) = none := by
        rw [releaseCounted, release, hdst]
        dsimp only
        rw [if_pos (by omega)]
        exact setSlot_entries_self _ _ _
      rw [dupEntry_removed hinv hslot hgone] at h
      cases h
    · rename_i hkeep
      rw [if_neg hkeep]
      obtain ⟨htable, hres⟩ := dupEntry_error (hacq _) h
      exact ⟨htable, hres.trans (Resources.destroy_acquire (hpos src hfound))⟩

/-- A copy onto an entry that is held more than once fails, and takes one of its references. -/
theorem doDup_held (res : Resources)
    {srcHid : UInt64} {he : HandleEntry Nat} (hacq : ∀ r, hasAcquire r)
    (hfound : t.lookup srcHid = some src) (hinv : dstHid ≠ kInvalidHandle)
    (hne : dstHid ≠ srcHid) (hdst : t.lookup dstHid = some he) (hcount : 2 ≤ he.refcount) :
    (t.doDup hasAcquire res srcHid dstHid).2.2 = .error .badH ∧
      (t.doDup hasAcquire res srcHid dstHid).1.entries (slotOf dstHid) =
        some { he with refcount := he.refcount - 1 } := by
  have hrelease : t.releaseCounted (res.acquire src.resource) dstHid =
      (t.setSlot (slotOf dstHid) (some { he with refcount := he.refcount - 1 }),
        res.acquire src.resource) := by
    rw [releaseCounted, release, hdst]
    dsimp only
    rw [if_neg (by omega)]
  have hdup : t.doDup hasAcquire res srcHid dstHid =
      (t.setSlot (slotOf dstHid) (some { he with refcount := he.refcount - 1 })).dupEntry hasAcquire
        (res.acquire src.resource) src dstHid := by
    rw [doDup, hfound]
    dsimp only
    rw [if_neg (fun hc => hne hc.2), if_pos (hacq _), if_pos ⟨hinv, by rw [hdst]; rfl⟩, hrelease]
  have herr := dupEntry_taken hasAcquire (res.acquire src.resource) src hinv
    (setSlot_entries_self t (slotOf dstHid) (some { he with refcount := he.refcount - 1 }))
  rw [hdup]
  refine ⟨herr, ?_⟩
  rw [(dupEntry_error (hacq _) herr).1]
  exact setSlot_entries_self _ _ _

end HandleTable

/-- A transfer that fails. -/
theorem transferCounted_error {hasAcquire : Nat → Bool} {src : HandleEntry Nat}
    {dst : HandleTable Nat} {res : Resources} {capsMask : UInt64} {e : Error}
    (hpos : 0 < res.refs src.resource)
    (h : (transferCounted hasAcquire src dst res capsMask).2.2 = .error e) :
    (transferCounted hasAcquire src dst res capsMask).1 = dst ∧
      (transferCounted hasAcquire src dst res capsMask).2.1 = res := by
  rw [transferCounted] at h ⊢
  dsimp only at h ⊢
  split
  · exact ⟨rfl, rfl⟩
  rename_i htransferable
  rw [if_neg htransferable] at h
  split
  · exact ⟨rfl, rfl⟩
  rename_i hgranted
  rw [if_neg hgranted] at h
  split
  · exact ⟨rfl, rfl⟩
  rename_i hacq
  rw [if_neg hacq] at h
  cases hadd : dst.add src.type src.resource (src.capabilities &&& capsMask) true with
  | error e => exact ⟨rfl, Resources.destroy_acquire hpos⟩
  | ok r =>
    rw [hadd] at h
    cases h

namespace HandleSys

variable {n : Nat}

/-- Two states that differ in an entry. -/
theorem put_ne {st : HandleSys n} {realm : Fin n} {t : HandleTable Nat} {res : Resources}
    {slot : Nat} (h : t.entries slot ≠ (st.tables realm).entries slot) :
    st.put realm t res ≠ st := by
  intro heq
  have htable : (st.put realm t res).tables realm = st.tables realm := by rw [heq]
  simp only [put, update_self] at htable
  exact h (by rw [htable])

/-- `dup2`, and `dup3` with two handles. -/
theorem dup_failsCleanly_iff {hasAcquire : Nat → Bool} (hacq : ∀ r, hasAcquire r)
    {st : HandleSys n} (h : st.Balanced) (realm : Fin n) (src dst : UInt64) :
    FailsCleanly hasAcquire st (.dup2 realm src dst) ↔ ¬OntoHeld st (.dup2 realm src dst) := by
  constructor
  · rintro hclean ⟨hinv, hne, hsrc, he, hdst, hcount⟩
    obtain ⟨src', hfound⟩ := Option.isSome_iff_exists.mp hsrc
    obtain ⟨herr, hentry⟩ := doDup_held st.res hacq hfound hinv hne hdst hcount
    have hchanged : ((st.tables realm).doDup hasAcquire st.res src dst).1.entries (slotOf dst) ≠
        (st.tables realm).entries (slotOf dst) := by
      rw [hentry, (lookup_eq_some.mp hdst).2.1]
      intro hsame
      have hcounts := congrArg HandleEntry.refcount (Option.some.inj hsame)
      dsimp only at hcounts
      omega
    exact put_ne hchanged (hclean _ herr)
  intro hnot e herr
  have hpos : ∀ src', (st.tables realm).lookup src = some src' → 0 < st.res.refs src'.resource :=
    fun _ hfound => (h.accounted realm).refs_pos hfound
  obtain ⟨htable, hres⟩ := doDup_error hacq hpos (by
    intro he hinv hne hsrc hdst
    by_contra hcount
    exact hnot ⟨hinv, hne, hsrc, he, hdst, by omega⟩) herr
  simp only [handleStep, htable, hres, put_self]

/-- After every sequence of calls on the tables, references and entries balance; and the next
`dup` or transfer, if it fails, leaves everything as it is, exactly if it is not onto an entry
that is held more than once. -/
theorem references_balance {hasAcquire : Nat → Bool} (hacq : ∀ r, hasAcquire r = true) (n : Nat)
    (ops : List (HandleOp n)) :
    (final (handleStep hasAcquire) (boot n) ops).Balanced ∧
      ∀ op, Copies op →
        (FailsCleanly hasAcquire (final (handleStep hasAcquire) (boot n) ops) op ↔
          ¬OntoHeld (final (handleStep hasAcquire) (boot n) ops) op) := by
  have hstep : ∀ (st : HandleSys n) op, st.Balanced → (handleStep hasAcquire st op).1.Balanced :=
    fun _ op hst => hst.step hacq op
  have hbal : (final (handleStep hasAcquire) (boot n) ops).Balanced :=
    @final_invariant _ _ _ _ Balanced hstep _ balanced_boot ops
  refine ⟨hbal, ?_⟩
  generalize final (handleStep hasAcquire) (boot n) ops = st at hbal ⊢
  intro op hcopies
  cases op with
  | dup realm src =>
    -- as `dup2` onto the invalid handle, which nothing is held under
    have hsame := dup_failsCleanly_iff hacq hbal realm src kInvalidHandle
    refine ⟨fun _ hheld => hheld, fun _ => hsame.mpr ?_⟩
    exact fun hheld => hheld.1 rfl
  | dup2 realm src dst => exact dup_failsCleanly_iff hacq hbal realm src dst
  | dup3 realm src dst =>
    by_cases heq : src = dst
    · refine ⟨fun _ hheld => hheld.2.1 heq.symm, fun _ e _ => ?_⟩
      simp only [handleStep, if_pos heq]
    · have hsame := dup_failsCleanly_iff hacq hbal realm src dst
      simp only [FailsCleanly, handleStep, if_neg heq] at hsame ⊢
      exact hsame
  | transfer realm hid dst capsMask =>
    refine ⟨fun _ hheld => hheld, fun _ e herr => ?_⟩
    rw [handleStep] at herr ⊢
    split
    · rfl
    rename_i src hfound
    rw [hfound] at herr
    have hpos := (hbal.accounted realm).refs_pos hfound
    obtain ⟨htable, hres⟩ := transferCounted_error hpos herr
    simp only [htable, hres, put_self]
  | add | addAt | acquire | release | clear => exact absurd hcopies (fun hc => hc)


/-- Two files are opened, and the second is also held by a message that is on its way. -/
def heldCalls : List (HandleOp 1) :=
  [.add 0 .file capRead true, .add 0 .file capRead true, .acquire 0 (hidOf .file 5)]

/-- The first file is copied onto a handle of another type for the slot of the second: `add_at`
refuses, and the reference that was taken is given back. -/
theorem references_balance_held :
    let st := final (handleStep fun _ => true) (boot 1) heldCalls
    let op : HandleOp 1 := .dup2 0 (hidOf .file 4) (hidOf .socket 5)
    st.Balanced ∧ ((handleStep (fun _ => true) st op).2 matches .error .badH) ∧
      FailsCleanly (fun _ => true) st op := by
  have h := @references_balance (fun _ => true) (fun _ => rfl) 1 heldCalls
  refine ⟨h.1, by decide +kernel, (h.2 (.dup2 0 _ _) trivial).mpr ?_⟩
  rintro ⟨-, -, -, he, hdst, -⟩
  have hnone : (((final (handleStep fun _ => true) (boot 1) heldCalls).tables 0).lookup
      (hidOf .socket 5)).isNone := by
    decide +kernel
  rw [hdst] at hnone
  cases hnone

/-- `dup2` of the first file onto the second fails, and takes the reference of the message: when
the message gives it back, the second file is closed. -/
theorem failed_dup_counts :
    let st := final (handleStep fun _ => true) (boot 1) heldCalls
    let st' := (handleStep (fun _ => true) st (.dup2 0 (hidOf .file 4) (hidOf .file 5))).1
    ((handleStep (fun _ => true) st
        (.dup2 0 (hidOf .file 4) (hidOf .file 5))).2 matches .error .badH) ∧
      ((st.tables 0).lookup (hidOf .file 5)).map HandleEntry.refcount = some 2 ∧
      ((st'.tables 0).lookup (hidOf .file 5)).map HandleEntry.refcount = some 1 ∧
      (((handleStep (fun _ => true) st' (.release 0 (hidOf .file 5))).1.tables
        0).lookup (hidOf .file 5)).isNone := by
  decide +kernel

end HandleSys

end Vespera.Realms
