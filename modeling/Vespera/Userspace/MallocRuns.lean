import Vespera.Userspace.MallocRooms

/-! # Runs of the allocator

Sequences of calls by a program that also writes into its blocks. `Held` connects the blocks the
program has to the rooms of the allocator, and every call keeps it (`Held.step`). `realloc`, which
allocates and frees, comes first (`realloc_moves`).

* `Program.live_blocks_intact`: as long as the program frees and reallocates only what `malloc`,
  `calloc` and `realloc` gave it, the heap is tiled by its segments, the blocks are aligned, long
  enough and do not overlap each other or a header, and no call changes a block it is not about.
* `Program.freed_memory_returned`: what such a program frees is returned.
* `Program.aligned_block_not_returned`: a block of `posix_memalign` is not.
-/

namespace Vespera.Userspace

open Lib List Malloc

/-! ## `realloc` -/

/-- A call that puts the `k` bytes at `p` into a block of `size` bytes, or returns the null
pointer. -/
structure Moved (p k : Nat) (st : Malloc) (slots : List Slot) (size : Nat) (res : Malloc × Nat)
    (slots' : List Slot) : Prop where
  rep : Rep res.1 slots'
  keeps : KeepsBut p st slots res.1 slots'
  null : res.2 = 0 → size ≠ 0 → KeepsBut 0 st slots res.1 slots'
  room : res.2 ≠ 0 → ∃ n, size ≤ n ∧ Room res.1 slots' res.2 n
  fresh : res.2 ≠ p → ∀ n, ¬ Room st slots res.2 n
  bytes : res.2 ≠ 0 → ∀ i, i < k → i < size → res.1.mem (res.2 + i) = st.mem (p + i)
  slots_le : slots'.length ≤ slots.length + 3
  maps_le : res.1.maps.length ≤ st.maps.length + 1

/-- The block just handed out is written to. -/
theorem Allocated.write {st st1 : Malloc} {slots slots1 : List Slot} {m' : ByteMem} {p k size : Nat}
    (h : Allocated st slots size (st1, p) slots1) (hp : Room st1 slots1 p k)
    (hm : ∀ x, x < p ∨ p + k ≤ x → m' x = st1.mem x) :
    Allocated st slots size ({ st1 with mem := m' }, p) slots1 := by
  obtain ⟨hrep, hkeep⟩ := h.rep.scribble hp hm
  exact ⟨hrep, h.keeps.trans_fresh hkeep fun k hk => absurd hk (h.fresh k), h.room, h.fresh, h.slots_le, h.maps_le⟩

section Realloc

variable {st : Malloc} {slots : List Slot} {sys : Sys} {p k n c size : Nat}

theorem LargeList.read {m : ByteMem} {l : List (Nat × Nat)} {r : Nat × Nat} (h : LargeList m l)
    (hr : r ∈ l) : (largeSeg m r.1).addr = r.1 + 24 ∧ (largeSeg m r.1).size = r.2 - 24 := by
  induction l with
  | nil => cases hr
  | cons r' l ih =>
    rcases mem_cons.mp hr with rfl | hr
    · rw [h.1]
      exact ⟨rfl, rfl⟩
    · exact ih h.2 hr

theorem findLarge_eq {m : ByteMem} {l : List (Nat × Nat)} (h : LargeList m l)
    (hpos : ∀ r ∈ l, 0 < r.1) (hn : l.length ≤ n) :
    findLarge m p n (headPtr l) = (l.find? fun r => r.1 + 24 = p).map Prod.fst := by
  induction l generalizing n with
  | nil => cases n <;> simp [findLarge, headPtr]
  | cons r l ih =>
    obtain ⟨n, rfl⟩ : ∃ i, n = i + 1 := ⟨n - 1, by simp at hn; omega⟩
    have hr := hpos r mem_cons_self
    rw [headPtr_cons, findLarge, if_neg (by omega), h.1, find?_cons]
    by_cases heq : r.1 + 24 = p
    · simp [heq]
    · simp only [heq, if_false, decide_false]
      exact ih h.2 (fun r' h => hpos r' (mem_cons_of_mem _ h)) (by simpa using hn)

section

variable (h : Rep st slots)

include h

/-- Rooms of the heap and rooms of mappings are told apart by their addresses. -/
theorem Rep.room_small (hr : Room st slots p k) (hp : p % 16 = 0) :
    ∃ a, (a, ⟨k, false⟩) ∈ places Slot.span st.heapBase slots ∧ p = a + 32 := by
  rcases hr with hs | ⟨lo, hlo, rfl⟩
  · exact hs
  · have := h.maps _ hlo
    dsimp only at this
    omega

theorem Rep.room_large (hr : Room st slots p k) (hp : p % 16 ≠ 0) :
    ∃ lo, (lo, k + 24) ∈ st.maps ∧ p = lo + 24 := by
  rcases hr with ⟨a, hs, rfl⟩ | hl
  · have := (h.laid hs).2.place hs
    omega
  · exact hl

/-- The header in front of a slot. -/
theorem Rep.slot_header {a : Nat} (hs : (a, ⟨k, false⟩) ∈ places Slot.span st.heapBase slots) :
    (heapSeg st.mem a).length = k ∧ (heapSeg st.mem a).magic = heapMagic := by
  obtain ⟨l1, l2, rfl, rfl⟩ := place_cut hs
  obtain ⟨q, hread⟩ := (h.laid hs).2.header
  rw [HeaderAt] at hread
  rw [hread]
  exact ⟨rfl, rfl⟩

variable (hp : Room st slots p k) (hsys : SysOk sys st) (hsize : size + 24 < 2 ^ 64)
  (hn : slots.length + 3 ≤ n) (hn' : st.maps.length + 1 ≤ n)

include hp hsys hsize hn hn'

/-- `malloc`, `memcpy`, `free`. -/
theorem moveTo_moves {count : ByteMem → Nat}
    (hcount : ∀ st' slots', Rep st' slots' → Room st' slots' p k → count st'.mem = c)
    (hc : c ≤ size) (hc' : min k size ≤ c) :
    ∃ slots', Moved p k st slots size (st.moveTo sys n p size count) slots' := by
  obtain ⟨slots1, hall⟩ := malloc_allocates (n := n) h hsys hsize hn
  unfold moveTo
  generalize st.malloc sys n size = res at *
  obtain ⟨st1, q⟩ := res
  have hp0 : p ≠ 0 := by
    have := h.room_bounds hp
    omega
  dsimp only at *
  have hkeep : ∀ r, KeepsBut r st slots st1 slots1 := hall.keeps.mono h.no_room_zero
  split
  · rename_i hq
    subst hq
    exact ⟨slots1, hall.rep, hkeep p, fun _ _ => hall.keeps, fun h0 => absurd rfl h0,
      fun _ => hall.fresh, fun h0 => absurd rfl h0, hall.slots_le, hall.maps_le⟩
  rename_i hq
  obtain ⟨n1, hn1, hroom⟩ := hall.room hq
  have hqp : q ≠ p := by
    rintro rfl
    exact hall.fresh k hp
  obtain ⟨hp1, hbytes1⟩ := hall.keeps p k hp hp0
  have hcopied := hcount st1 slots1 hall.rep hp1
  rw [hcopied]
  -- the copy stays inside the new room
  have hout : ∀ x, x < q ∨ q + n1 ≤ x → st1.mem.copy q p c x = st1.mem x :=
    fun x hx => ByteMem.copy_of_not_mem (by omega)
  obtain ⟨hrep2, hkeep2⟩ := hall.rep.scribble hroom hout
  have hp2 : Room { st1 with mem := st1.mem.copy q p c } slots1 p k := hp1
  have hq2 : Room { st1 with mem := st1.mem.copy q p c } slots1 q n1 := hroom
  obtain ⟨slots3, hrep3, hkeep3, -, hlen3, hmaps3⟩ :=
    free_returns (n := n) hrep2 hp2 (by have := hall.maps_le; dsimp only at this ⊢; omega)
  obtain ⟨hq3, hbytes3⟩ := hkeep3 q n1 hq2 hqp
  refine ⟨slots3, hrep3, ((hkeep p).trans_fresh hkeep2 fun k hk => absurd hk (hall.fresh k)).trans hkeep3,
    fun h0 => absurd h0 hq, fun _ => ⟨n1, hn1, hq3⟩, fun _ => hall.fresh, ?_, ?_, ?_⟩
  · intro _ i hik his
    have hi : q ≤ q + i ∧ q + i < q + c := by omega
    refine (hbytes3 (q + i) (by omega) (by omega)).trans ?_
    show st1.mem.copy q p c (q + i) = _
    rw [ByteMem.copy, if_pos hi, Nat.add_sub_cancel_left]
    exact hbytes1 (p + i) (by omega) (by omega)
  · exact hlen3.trans hall.slots_le
  · exact hmaps3.trans hall.maps_le

theorem realloc_moves :
    ∃ slots', Moved p k st slots size (st.realloc sys n p size) slots' := by
  have hb := h.room_bounds hp
  unfold realloc
  rw [if_neg (by omega)]
  split
  · -- size 0: the block is freed
    rename_i h0
    obtain ⟨slots1, hrep, hkeep, -, hlen, hmaps⟩ := free_returns (n := n) h hp (by omega)
    exact ⟨slots1, hrep, hkeep, fun _ hne => absurd h0 hne, fun h => absurd rfl h,
      fun _ => h.no_room_zero, fun h => absurd rfl h, by omega, by dsimp only; omega⟩
  have hfind := findLarge_eq (p := p) (n := n) h.large (fun r hr => (h.maps r hr).1) (by omega)
  rw [← h.list] at hfind
  -- the same block serves
  have hstay : size ≤ k → Moved p k st slots size (st, p) slots := by
    intro hle
    exact ⟨h, KeepsBut.refl, fun _ _ => KeepsBut.refl, fun _ => ⟨k, hle, hp⟩,
      fun hne => absurd rfl hne, fun _ _ _ _ => rfl, by omega, by simp⟩
  by_cases hmod : p % 16 = 0
  · obtain ⟨a, hs, rfl⟩ := h.room_small hp hmod
    obtain ⟨hhead, hlaid⟩ := h.laid hs
    have hplace := hlaid.place hs
    have hnone : st.maps.find? (fun r => r.1 + 24 = a + 32) = none := by
      rw [find?_eq_none]
      intro r hr heq
      have := h.maps r hr
      have : r.1 + 24 = a + 32 := by simpa using heq
      omega
    rw [hnone, Option.map_none] at hfind
    obtain ⟨hlength, hmagic⟩ := h.slot_header hs
    obtain ⟨hle, hmod', -⟩ := alignUp16_spec (n := size) (by omega)
    rw [hfind]
    dsimp only [heapSegSize, minAllocSize]
    rw [Nat.add_sub_cancel, hmagic, if_neg (fun h => h rfl), hlength]
    split
    · -- the rest of the slot is cut off
      rename_i hfit
      obtain ⟨l1, l2, rfl, ha⟩ := place_cut hs
      obtain ⟨s', r, hstage, hfree, hle', hlen, hbytes⟩ :=
        h.split (p := a + 32) ha hfit (by omega) (fun _ => rfl)
      have hroom : Room (st.splitSegment a (max (alignUp16 size) 16)) (l1 ++ s' :: (r ++ l2))
          (a + 32) s'.length := by
        refine .inl ⟨a, ?_, rfl⟩
        rw [hstage.base, ha]
        have hs' : s' = ⟨s'.length, false⟩ := by
          obtain ⟨length, free⟩ := s'
          dsimp only at hfree
          rw [hfree]
        rw [← hs']
        exact place_at _ l1 s' _
      refine ⟨_, hstage.rep, hstage.keeps, fun h0 => absurd h0 (by dsimp only; omega),
        fun _ => ⟨s'.length, by omega, hroom⟩, fun hne => absurd rfl hne, ?_, ?_, ?_⟩
      · intro _ i _ hi
        refine hbytes (a + 32 + i) (by omega) ?_
        simp only [Slot.span]
        omega
      · simp only [length_append, length_cons]
        omega
      · dsimp only
        rw [hstage.maps]
        omega
    refine moveTo_moves (c := min k size) h hp hsys hsize hn hn' ?_ (by omega) le_rfl
    intro st' slots' hrep hroom
    obtain ⟨a', hs', ha'⟩ := hrep.room_small hroom hmod
    obtain rfl : a = a' := by omega
    rw [(hrep.slot_header hs').1]
  obtain ⟨lo, hlo, rfl⟩ := h.room_large hp hmod
  have hsome : st.maps.find? (fun r => r.1 + 24 = lo + 24) = some (lo, k + 24) := by
    cases hf : st.maps.find? (fun r => r.1 + 24 = lo + 24) with
    | none =>
      rw [find?_eq_none] at hf
      exact absurd (by simp) (hf _ hlo)
    | some r =>
      have hr : r.1 + 24 = lo + 24 := by simpa using find?_some hf
      rw [eq_of_start h.apart (fun r hr => (h.maps r hr).2.2.1) (mem_of_find?_eq_some hf)
        hlo hr]
  rw [hsome, Option.map_some] at hfind
  rw [hfind]
  dsimp only
  rw [(h.large.read hlo).2, Nat.add_sub_cancel]
  split
  · rename_i hle
    exact ⟨slots, hstay hle⟩
  refine moveTo_moves (c := k) h hp hsys hsize hn hn' ?_ (by omega) (by omega)
  intro st' slots' hrep hroom
  obtain ⟨lo', hlo', hp'⟩ := hrep.room_large hroom hmod
  obtain rfl : lo = lo' := by omega
  rw [(hrep.large.read hlo').2, Nat.add_sub_cancel]

end

end Realloc

/-! ## `calloc` and `posix_memalign` -/

section Others

variable {st : Malloc} {slots : List Slot} {sys : Sys} {n nmemb size alignment : Nat}

theorem calloc_allocates (h : Rep st slots) (hsys : SysOk sys st)
    (hsize : nmemb * size < 2 ^ 64 → nmemb * size + 24 < 2 ^ 64) (hn : slots.length + 3 ≤ n) :
    ∃ slots', Allocated st slots (nmemb * size) (st.calloc sys n nmemb size) slots' := by
  unfold calloc
  split
  · exact ⟨slots, h.allocated_none⟩
  split
  · exact ⟨slots, h.allocated_none⟩
  rename_i hzero hover
  have hlt : nmemb * size < 2 ^ 64 := by
    have : size * nmemb ≤ 2 ^ 64 - 1 := (Nat.le_div_iff_mul_le (by omega)).mp (by omega)
    rw [Nat.mul_comm]
    omega
  obtain ⟨slots1, hall⟩ := malloc_allocates (n := n) h hsys (hsize hlt) hn
  dsimp only
  generalize st.malloc sys n (nmemb * size) = res at *
  obtain ⟨st1, p⟩ := res
  dsimp only
  split
  · rename_i hp
    subst hp
    exact ⟨slots1, hall⟩
  rename_i hp
  split
  · -- the new block is cleared
    obtain ⟨k, hk, hroom⟩ := hall.room hp
    have hout : ∀ x, x < p ∨ p + k ≤ x → st1.mem.fill p 0 (nmemb * size) x = st1.mem x :=
      fun x hx => ByteMem.fill_of_not_mem (by omega)
    exact ⟨slots1, hall.write hroom hout⟩
  · exact ⟨slots1, hall⟩

/-- What `posix_memalign` returns lies in a room of its own, with the pointer to the room in front
of it. -/
theorem posixMemalign_spec (h : Rep st slots) (hsys : SysOk sys st) (halign : 0 < alignment)
    (hsize : size + alignment + 31 < 2 ^ 64) (hn : slots.length + 3 ≤ n) :
    ∃ st1 slots1, Rep st1 slots1 ∧ KeepsBut 0 st slots st1 slots1 ∧
      slots1.length ≤ slots.length + 3 ∧ st1.maps.length ≤ st.maps.length + 1 ∧
      ((∃ e, st.posixMemalign sys n alignment size = (st1, .error e)) ∨
        (size = 0 ∧ st.posixMemalign sys n alignment size = (st1, .ok 0)) ∨
        ∃ p raw k, st.posixMemalign sys n alignment size = (st1, .ok p) ∧
          p % alignment = 0 ∧ p ≠ 0 ∧ st1.mem.load 8 (p - 8) = raw ∧ Room st1 slots1 raw k ∧
          (∀ i, ¬ Room st slots raw i) ∧ raw ≤ p ∧ p + size ≤ raw + k) := by
  have hstay : KeepsBut 0 st slots st slots := .refl
  unfold posixMemalign
  split
  · exact ⟨st, slots, h, hstay, by omega, by omega, .inl ⟨_, rfl⟩⟩
  split
  · exact ⟨st, slots, h, hstay, by omega, by omega, .inl ⟨_, rfl⟩⟩
  split
  · rename_i h0
    exact ⟨st, slots, h, hstay, by omega, by omega, .inr (.inl ⟨h0, rfl⟩)⟩
  have htotal : (size + alignment + 2 ^ 64 - 1 + 8) % 2 ^ 64 = size + alignment + 7 := by omega
  rw [htotal]
  obtain ⟨slots1, hall⟩ :=
    malloc_allocates (n := n) h hsys (show size + alignment + 7 + 24 < 2 ^ 64 by omega) hn
  dsimp only
  generalize st.malloc sys n (size + alignment + 7) = res at *
  obtain ⟨st1, raw⟩ := res
  have hlen := hall.slots_le
  have hmaps := hall.maps_le
  dsimp only at *
  split
  · exact ⟨st1, slots1, hall.rep, hall.keeps, hlen, hmaps, .inl ⟨_, rfl⟩⟩
  rename_i hraw
  obtain ⟨k, hk, hroom⟩ := hall.room hraw
  have hb := hall.rep.room_bounds hroom
  -- rounding up leaves room for the pointer in front and for the block behind
  have hwrap : (raw + 8 + alignment + 2 ^ 64 - 1) % 2 ^ 64 = raw + 8 + alignment - 1 := by omega
  rw [hwrap]
  have hdiv := Nat.div_add_mod (raw + 8 + alignment - 1) alignment
  have hlt := Nat.mod_lt (raw + 8 + alignment - 1) halign
  rw [Nat.mul_comm] at hdiv
  generalize hp : (raw + 8 + alignment - 1) / alignment * alignment = p at *
  have hpmod : p % alignment = 0 := by rw [← hp, Nat.mul_mod_left]
  have hfront : (p + 2 ^ 64 - 8) % 2 ^ 64 = p - 8 := by omega
  rw [hfront]
  have hout : ∀ x, x < raw ∨ raw + k ≤ x → st1.mem.store 8 (p - 8) raw x = st1.mem x :=
    fun x hx => ByteMem.store_of_not_mem (by omega)
  have hall' := hall.write hroom hout
  refine ⟨_, slots1, hall'.rep, hall'.keeps, hlen, hmaps, .inr (.inr ⟨p, raw, k, rfl, hpmod,
    by omega, ?_, hroom, hall.fresh, by omega, by omega⟩)⟩
  rw [ByteMem.load_store_self]
  exact Nat.mod_eq_of_lt (by omega)

end Others

/-! ## The program -/

namespace Program

/-- `ptr` is in use and came from `malloc`, `calloc` or `realloc`. -/
def Owns (c : Program) (ptr : Nat) : Prop := ∃ b ∈ c.live, b.ptr = ptr ∧ b.raw = ptr

/-- Only such pointers are freed and reallocated, and no size wraps. -/
def Fair (c : Program) (a : Sys × MallocCall) : Prop :=
  SysOk a.1 c.st ∧
    match a.2 with
    | .malloc size => size + 24 < 2 ^ 64
    | .calloc nmemb size => nmemb * size < 2 ^ 64 → nmemb * size + 24 < 2 ^ 64
    | .realloc ptr newSize => newSize + 24 < 2 ^ 64 ∧ (ptr = 0 ∨ c.Owns ptr)
    | .free ptr => ptr = 0 ∨ c.Owns ptr
    | .posixMemalign alignment size => 0 < alignment ∧ size + alignment + 31 < 2 ^ 64
    | .write ptr i _ => ∃ b ∈ c.live, b.ptr = ptr ∧ i < b.size

/-- The block a call is about. -/
def target : MallocCall → Nat
  | .realloc ptr _ => ptr
  | .free ptr => ptr
  | .write ptr _ _ => ptr
  | _ => 0

/-- The blocks of the program lie in rooms of their own. -/
structure Held (c : Program) (slots : List Slot) : Prop where
  rep : Rep c.st slots
  few : slots.length ≤ 3 * c.calls
  few' : c.st.maps.length ≤ c.calls
  rooms : ∀ b ∈ c.live, ∃ n, Room c.st slots b.raw n ∧ b.raw ≤ b.ptr ∧ b.ptr + b.size ≤ b.raw + n
  distinct : c.live.Pairwise fun b b' => b.raw ≠ b'.raw

/-- What one call did: the program holds its blocks, and the other blocks are as they were. -/
structure Served (c : Program) (slots : List Slot) (ptr : Nat) (c' : Program)
    (slots' : List Slot) : Prop where
  held : Held c' slots'
  others : ∀ b ∈ c.live, b.ptr ≠ ptr →
    ∀ i, i < b.size → c'.st.mem (b.ptr + i) = c.st.mem (b.ptr + i)

section Steps

variable {c : Program} {slots slots' : List Slot} {st : Malloc} {b b0 : Block} {p : Nat}

section Steps

variable (h : Held c slots)

include h

theorem Held.raw_ne (hb : b ∈ c.live) (hb₀ : b0 ∈ c.live) (hne : b ≠ b0) : b.raw ≠ b0.raw := by
  have hsymm : Std.Symm fun b b' : Block => b.raw ≠ b'.raw := ⟨fun _ _ h => h.symm⟩
  exact h.distinct.forall hb hb₀ hne

/-- Blocks in rooms that are kept are kept. -/
theorem Held.block_kept (hk : KeepsBut p c.st slots st slots') (hb : b ∈ c.live) (hne : b.raw ≠ p) :
    (∃ n, Room st slots' b.raw n ∧ b.raw ≤ b.ptr ∧ b.ptr + b.size ≤ b.raw + n) ∧
      ∀ i, i < b.size → st.mem (b.ptr + i) = c.st.mem (b.ptr + i) := by
  obtain ⟨n, hroom, hle, hge⟩ := h.rooms b hb
  obtain ⟨hroom', hbytes⟩ := hk b.raw n hroom hne
  exact ⟨⟨n, hroom', hle, hge⟩, fun i hi => hbytes _ (by omega) (by omega)⟩

theorem Held.raw_pos (hb : b ∈ c.live) : b.raw ≠ 0 ∧ b.ptr ≠ 0 := by
  obtain ⟨n, hroom, hle, -⟩ := h.rooms b hb
  have := h.rep.room_bounds hroom
  omega

/-- A call that takes a new block `b`, or none, while a part of the blocks stays in use. -/
theorem Held.taken {live : List Block} (hrep : Rep st slots')
    (hk : KeepsBut p c.st slots st slots') (hlen : slots'.length ≤ slots.length + 3)
    (hmaps : st.maps.length ≤ c.st.maps.length + 1) (hsub : live.Sublist c.live)
    (hlive : ∀ b' ∈ live, b'.raw ≠ p) (hother : ∀ b' ∈ c.live, b'.ptr ≠ p → b'.raw ≠ p)
    (hnew : b.ptr ≠ 0 → (∃ n, Room st slots' b.raw n ∧ b.raw ≤ b.ptr ∧
      b.ptr + b.size ≤ b.raw + n) ∧ ∀ b' ∈ live, b.raw ≠ b'.raw) :
    Served c slots p (({ c with live } : Program).taken st b).1 slots' := by
  refine ⟨⟨hrep, ?_, ?_, ?_, ?_⟩, ?_⟩
  · show slots'.length ≤ 3 * (c.calls + 1)
    have := h.few
    omega
  · show st.maps.length ≤ c.calls + 1
    have := h.few'
    omega
  · intro b' hb'
    simp only [Program.taken] at hb'
    split at hb'
    · exact (h.block_kept hk (hsub.subset hb') (hlive b' hb')).1
    rename_i hptr
    rcases mem_cons.mp hb' with rfl | hb'
    · exact (hnew hptr).1
    · exact (h.block_kept hk (hsub.subset hb') (hlive b' hb')).1
  · simp only [Program.taken]
    split
    · exact h.distinct.sublist hsub
    · rename_i hptr
      exact pairwise_cons.mpr ⟨(hnew hptr).2, h.distinct.sublist hsub⟩
  · intro b' hb' hne
    exact (h.block_kept hk hb' (hother b' hb' hne)).2

/-- A call that takes a new block, or none, and all blocks stay in use. -/
theorem Held.added (hrep : Rep st slots') (hk : KeepsBut 0 c.st slots st slots')
    (hlen : slots'.length ≤ slots.length + 3) (hmaps : st.maps.length ≤ c.st.maps.length + 1)
    (hnew : b.ptr ≠ 0 → (∃ n, Room st slots' b.raw n ∧ b.raw ≤ b.ptr ∧
      b.ptr + b.size ≤ b.raw + n) ∧ ∀ n, ¬ Room c.st slots b.raw n) :
    Served c slots 0 (c.taken st b).1 slots' := by
  refine h.taken hrep hk hlen hmaps (List.Sublist.refl _)
    (fun b hb => (h.raw_pos hb).1) (fun b hb _ => (h.raw_pos hb).1) ?_
  refine fun hptr => ⟨(hnew hptr).1, fun b' hb heq => ?_⟩
  obtain ⟨k, hk, -⟩ := h.rooms b' hb
  exact (hnew hptr).2 k (heq ▸ hk)

/-- A call that allocates. -/
theorem Held.allocated {size : Nat} {res : Malloc × Nat}
    (ha : Allocated c.st slots size res slots') :
    Served c slots 0 (c.taken res.1 ⟨res.2, res.2, size⟩).1 slots' := by
  refine h.added ha.rep ha.keeps ha.slots_le ha.maps_le fun hptr => ⟨?_, ha.fresh⟩
  obtain ⟨n, hn, hroom⟩ := ha.room hptr
  exact ⟨n, hroom, le_rfl, by dsimp only; omega⟩

/-- The blocks that stay when `b0` goes. -/
theorem Held.without (hb₀ : b0 ∈ c.live) (hptr : b0.ptr = p) (hraw : b0.raw = p) :
    (∀ b ∈ c.without p, b.raw ≠ p) ∧ ∀ b ∈ c.live, b.ptr ≠ p → b.raw ≠ p := by
  have hother : ∀ b ∈ c.live, b.ptr ≠ p → b.raw ≠ p := by
    intro b hb hne
    rw [← hraw]
    refine h.raw_ne hb hb₀ ?_
    rintro rfl
    exact hne hptr
  refine ⟨fun b hb => ?_, hother⟩
  obtain ⟨hb, hne⟩ := mem_filter.mp hb
  exact hother b hb (by simpa using hne)

theorem fuel_enough : slots.length + 3 ≤ c.fuel ∧ c.st.maps.length + 1 ≤ c.fuel := by
  have := h.few
  have := h.few'
  unfold Program.fuel
  omega

theorem without_zero : c.without 0 = c.live := by
  apply filter_eq_self.mpr
  intro b hb
  simpa using (h.raw_pos hb).2

theorem Held.malloc {sys : Sys} {size : Nat} (hf : c.Fair (sys, .malloc size)) :
    ∃ slots', Served c slots 0 (c.step (sys, .malloc size)).1 slots' := by
  obtain ⟨slots', ha⟩ := malloc_allocates h.rep hf.1 hf.2 (fuel_enough h).1
  exact ⟨slots', h.allocated ha⟩

theorem Held.calloc {sys : Sys} {nmemb size : Nat} (hf : c.Fair (sys, .calloc nmemb size)) :
    ∃ slots', Served c slots 0 (c.step (sys, .calloc nmemb size)).1 slots' := by
  obtain ⟨slots', ha⟩ := calloc_allocates h.rep hf.1 hf.2 (fuel_enough h).1
  exact ⟨slots', h.allocated ha⟩

/-- `free` returns what the program owns. -/
theorem Held.free {sys : Sys} (hf : c.Fair (sys, .free p)) :
    ∃ slots', Served c slots p (c.step (sys, .free p)).1 slots' ∧
      KeepsBut p c.st slots (c.step (sys, .free p)).1.st slots' ∧
      (p ≠ 0 → ∃ k, Room c.st slots p k ∧
        Returned p k c.st (c.step (sys, .free p)).1.st slots') := by
  obtain ⟨-, hn'⟩ := fuel_enough h
  by_cases hp : p = 0
  · -- nothing happens
    subst hp
    have hsame : c.st.free c.fuel 0 = c.st := by simp [free]
    refine ⟨slots, ?_, ?_, fun h0 => absurd rfl h0⟩
    · have := h.added (b := ⟨0, 0, 0⟩) h.rep .refl (by omega) (by omega) fun h0 => absurd rfl h0
      simpa [step, Program.taken, hsame, without_zero h] using this
    · simpa [step, hsame] using KeepsBut.refl
  obtain ⟨b0, hb₀, hptr, hraw⟩ : c.Owns p := hf.2.resolve_left hp
  obtain ⟨k, hroom, -, -⟩ := h.rooms b0 hb₀
  rw [hraw] at hroom
  obtain ⟨slots', hrep, hkeep, hret, hlen, hmaps⟩ :=
    free_returns (n := c.fuel) h.rep hroom (by omega)
  obtain ⟨hlive, hother⟩ := h.without hb₀ hptr hraw
  refine ⟨slots', ?_, hkeep, fun _ => ⟨k, hroom, hret⟩⟩
  exact h.taken (b := ⟨0, 0, 0⟩) hrep hkeep (by omega) (by omega) filter_sublist hlive
    hother (fun h0 => absurd rfl h0)

/-- `realloc` keeps the first bytes. -/
theorem Held.realloc {sys : Sys} {size : Nat} (hf : c.Fair (sys, .realloc p size)) :
    ∃ slots', Served c slots p (c.step (sys, .realloc p size)).1 slots' ∧
      ∀ q, (c.step (sys, .realloc p size)).2 = .ok q → q ≠ 0 → ∀ b ∈ c.live, b.ptr = p →
        ∀ i, i < b.size → i < size →
          (c.step (sys, .realloc p size)).1.st.mem (q + i) = c.st.mem (p + i) := by
  obtain ⟨hn, hn'⟩ := fuel_enough h
  by_cases hp : p = 0
  · -- as `malloc`
    subst hp
    obtain ⟨slots', ha⟩ := malloc_allocates h.rep hf.1 hf.2.1 hn
    refine ⟨slots', ?_, ?_⟩
    · have := h.allocated ha
      simpa [step, realloc, without_zero h] using this
    · intro q _ _ b hb hb0
      exact absurd hb0 (h.raw_pos hb).2
  obtain ⟨b0, hb₀, hptr, hraw⟩ : c.Owns p := hf.2.2.resolve_left hp
  obtain ⟨k, hroom, hle, hge⟩ := h.rooms b0 hb₀
  rw [hraw] at hroom hge
  obtain ⟨slots', hm⟩ := realloc_moves h.rep hroom hf.1 hf.2.1 hn hn'
  obtain ⟨hlive, hother⟩ := h.without hb₀ hptr hraw
  simp only [step]
  generalize c.st.realloc sys c.fuel p size = res at *
  obtain ⟨st1, q⟩ := res
  refine ⟨slots', ?_, ?_⟩
  · by_cases hq : q ≠ 0 ∨ size = 0
    · rw [if_pos hq]
      refine h.taken hm.rep hm.keeps hm.slots_le hm.maps_le filter_sublist hlive hother ?_
      intro hptr'
      obtain ⟨n, hn, hnew⟩ := hm.room hptr'
      refine ⟨⟨n, hnew, le_rfl, by dsimp only; omega⟩, ?_⟩
      intro b hb heq
      dsimp only at heq
      obtain ⟨i, hi, -⟩ := h.rooms b (mem_filter.mp hb).1
      rw [← heq] at hi
      have hqp : q ≠ p := by
        rw [heq]
        exact hlive b hb
      exact hm.fresh hqp i hi
    -- no new block: the old one stays in use
    rw [if_neg hq]
    rw [not_or, not_not] at hq
    have hkeep := hm.null hq.1 hq.2
    have hserved := h.added (b := ⟨q, q, size⟩) hm.rep hkeep hm.slots_le hm.maps_le
      fun h0 => absurd hq.1 h0
    exact ⟨hserved.held, fun b hb _ => hserved.others b hb (h.raw_pos hb).2⟩
  intro q' hq' hne b hb hbp i hi hi'
  obtain rfl : q = q' := by simpa [Program.taken] using hq'
  -- no other block has this pointer
  have hsame : b.raw = p := by
    by_contra hraw'
    obtain ⟨n, hroom', hle', hge'⟩ := h.rooms b hb
    have := h.rep.rooms_apart hroom hroom'
    omega
  have hbb : b = b0 := by
    by_contra hne'
    exact h.raw_ne hb hb₀ hne' (hsame.trans hraw.symm)
  subst hbb
  exact hm.bytes hne i (by omega) hi'

end Steps

theorem taken_null {r n : Nat} : (c.taken st ⟨r, 0, n⟩).1 = (c.taken st ⟨0, 0, 0⟩).1 := by
  simp [Program.taken]

theorem mem_taken {r n : Nat} (hp : p ≠ 0) : ⟨r, p, n⟩ ∈ (c.taken st ⟨r, p, n⟩).1.live := by
  simp [Program.taken, hp]

/-- `posix_memalign` fails, or returns an aligned pointer to enough bytes. -/
theorem Held.posixMemalign {sys : Sys} {alignment size : Nat} (h : Held c slots)
    (hf : c.Fair (sys, .posixMemalign alignment size)) :
    ∃ slots', Served c slots 0 (c.step (sys, .posixMemalign alignment size)).1 slots' ∧
      ∀ q, (c.step (sys, .posixMemalign alignment size)).2 = .ok q → size ≠ 0 → q % alignment = 0 ∧
          ∃ b ∈ (c.step (sys, .posixMemalign alignment size)).1.live, b.ptr = q ∧
          b.size = size := by
  obtain ⟨hsys, halign, hsize⟩ := hf
  dsimp only at hsys halign hsize
  obtain ⟨st1, slots1, hrep, hkeep, hlen, hmaps, hres⟩ :=
    posixMemalign_spec h.rep hsys halign hsize (fuel_enough h).1
  have hnone : Served c slots 0 (c.taken st1 ⟨0, 0, 0⟩).1 slots1 :=
    h.added hrep hkeep hlen hmaps fun h0 => absurd rfl h0
  refine ⟨slots1, ?_⟩
  simp only [step]
  rcases hres with ⟨e, heq⟩ | ⟨h0, heq⟩ | ⟨p, raw, k, heq, hmod, hp, hraw, hroom, hfresh, hle, hge⟩
  · rw [heq]
    dsimp only
    exact ⟨hnone, fun q hq => nomatch hq⟩
  · rw [heq]
    dsimp only
    refine ⟨?_, fun q _ hne => absurd h0 hne⟩
    rw [taken_null]
    exact hnone
  rw [heq]
  dsimp only
  rw [hraw]
  refine ⟨h.added hrep hkeep hlen hmaps fun _ => ⟨⟨k, hroom, hle, hge⟩, hfresh⟩, ?_⟩
  intro q hq _
  obtain rfl : p = q := Except.ok.inj hq
  exact ⟨hmod, ⟨raw, p, size⟩, mem_taken hp, rfl, rfl⟩

theorem Held.write {sys : Sys} {i : Nat} {v : UInt8} (h : Held c slots)
    (hf : c.Fair (sys, .write p i v)) :
    ∃ slots', Served c slots p (c.step (sys, .write p i v)).1 slots' := by
  obtain ⟨b0, hb₀, rfl, hi⟩ := hf.2
  obtain ⟨n, hroom, hle, hge⟩ := h.rooms b0 hb₀
  have hout : ∀ x, x < b0.raw ∨ b0.raw + n ≤ x →
      c.st.mem.set (b0.ptr + i) v x = c.st.mem x :=
    fun x hx => ByteMem.set_of_ne (by omega)
  obtain ⟨hrep, hkeep⟩ := h.rep.scribble hroom hout
  refine ⟨slots, ⟨hrep, ?_, ?_, h.rooms, h.distinct⟩, ?_⟩
  · exact h.few.trans (Nat.mul_le_mul_left 3 (Nat.le_succ _))
  · exact h.few'.trans (Nat.le_succ _)
  intro b hb hne
  refine (h.block_kept hkeep hb (h.raw_ne hb hb₀ ?_)).2
  rintro rfl
  exact hne rfl

/-- Every call is served. -/
theorem Held.step {a : Sys × MallocCall} (h : Held c slots) (hf : c.Fair a) :
    ∃ slots', Served c slots (target a.2) (c.step a).1 slots' := by
  obtain ⟨sys, call⟩ := a
  cases call with
  | malloc size => exact h.malloc hf
  | calloc nmemb size => exact h.calloc hf
  | realloc ptr newSize => exact (h.realloc hf).imp fun _ hs => hs.1
  | free ptr => exact (h.free hf).imp fun _ hs => hs.1
  | posixMemalign alignment size => exact (h.posixMemalign hf).imp fun _ hs => hs.1
  | write ptr i v => exact h.write hf

theorem held_start {m : ByteMem} : Held (start m) [] where
  rep := ⟨.inl ⟨rfl, rfl⟩, rfl, trivial, by simp [start], List.Pairwise.nil, by simp [start]⟩
  few := Nat.zero_le _
  few' := Nat.zero_le _
  rooms := by simp [start]
  distinct := List.Pairwise.nil

theorem held_final {m : ByteMem} {run : List (Sys × MallocCall)}
    (h : Along step Fair (start m) run) : ∃ slots, Held (final step (start m) run) slots := by
  have hstep : ∀ (c : Program) (a : Sys × MallocCall), (∃ slots, Held c slots) → c.Fair a →
      ∃ slots, Held (c.step a).1 slots := by
    rintro c a ⟨slots, hc⟩ hf
    exact (hc.step hf).imp fun _ hs => hs.held
  exact final_invariant_along hstep ⟨[], held_start⟩ h

end Steps

/-! ## Blocks stay intact -/

/-- The calls of a program that does without `posix_memalign`, with sizes below 2^47. -/
def Proper (c : Program) (a : Sys × MallocCall) : Prop :=
  SysOk a.1 c.st ∧
    match a.2 with
    | .malloc size => size < 2 ^ 47
    | .calloc nmemb size => nmemb * size < 2 ^ 47
    | .realloc ptr newSize => newSize < 2 ^ 47 ∧ (ptr = 0 ∨ c.Owns ptr)
    | .free ptr => ptr = 0 ∨ c.Owns ptr
    | .posixMemalign _ _ => False
    | .write ptr i _ => ∃ b ∈ c.live, b.ptr = ptr ∧ i < b.size

/-- The segments tile the heap, and the blocks are aligned, long enough and apart from each other
and from every header. -/
structure Intact (c : Program) (slots : List Slot) : Prop where
  tiled : (c.st.heapHead = 0 ∧ slots = []) ∨ (c.st.heapHead = c.st.heapBase ∧ slots ≠ [] ∧
    ∃ p, Chain Slot.span (HeaderAt c.st.mem) c.st.heapEnd 0 c.st.heapBase slots p c.st.heapEnd)
  aligned : ∀ b ∈ c.live, b.ptr % 8 = 0
  long : ∀ b ∈ c.live, ∃ n, b.size ≤ n ∧ Room c.st slots b.ptr n
  apart : c.live.Pairwise fun b b' => Disjoint₂ b.ptr b.size b'.ptr b'.size
  headers : ∀ b ∈ c.live,
    (∀ y s, (y, s) ∈ places Slot.span c.st.heapBase slots → Disjoint₂ y 32 b.ptr b.size) ∧
      ∀ r ∈ c.st.maps, Disjoint₂ r.1 24 b.ptr b.size

/-- A call leaves every block alone that it is not about, and `realloc` keeps the bytes that the
old and the new block have in common. -/
def Preserves (c : Program) (a : Sys × MallocCall) : Prop :=
  (∀ b ∈ c.live, b.ptr ≠ target a.2 →
    ∀ i, i < b.size → (c.step a).1.st.mem (b.ptr + i) = c.st.mem (b.ptr + i)) ∧
  ∀ p size q, a.2 = .realloc p size → (c.step a).2 = .ok q → q ≠ 0 → ∀ b ∈ c.live, b.ptr = p →
    ∀ i, i < min b.size size → (c.step a).1.st.mem (q + i) = c.st.mem (p + i)

section Intact

variable {c : Program} {a : Sys × MallocCall} {slots : List Slot}

theorem Proper.fair (h : c.Proper a) : c.Fair a := by
  obtain ⟨sys, call⟩ := a
  obtain ⟨hsys, h⟩ := h
  refine ⟨hsys, ?_⟩
  cases call with
  | malloc size =>
    dsimp only at h ⊢
    omega
  | calloc nmemb size =>
    dsimp only at h ⊢
    omega
  | realloc ptr newSize =>
    dsimp only at h ⊢
    exact ⟨by omega, h.2⟩
  | free ptr => exact h
  | posixMemalign alignment size => exact h.elim
  | write ptr i v => exact h

/-- Without `posix_memalign`, pointers are those of `malloc`. -/
theorem Proper.raw (h : c.Proper a) (hraw : ∀ b ∈ c.live, b.raw = b.ptr) :
    ∀ b ∈ (c.step a).1.live, b.raw = b.ptr := by
  have htaken : ∀ (c' : Program) st p size, (∀ b ∈ c'.live, b.raw = b.ptr) →
      ∀ b ∈ (c'.taken st ⟨p, p, size⟩).1.live, b.raw = b.ptr := by
    intro c' st p size hc' b hb
    simp only [Program.taken] at hb
    split at hb
    · exact hc' b hb
    · rcases mem_cons.mp hb with rfl | hb
      · rfl
      · exact hc' b hb
  have hwithout : ∀ p, ∀ b ∈ c.without p, b.raw = b.ptr := fun p b hb => hraw b (mem_filter.mp hb).1
  obtain ⟨sys, call⟩ := a
  cases call with
  | malloc size => exact htaken c _ _ _ hraw
  | calloc nmemb size => exact htaken c _ _ _ hraw
  | realloc ptr newSize =>
    simp only [step]
    generalize c.st.realloc sys c.fuel ptr newSize = res
    refine htaken _ _ _ _ ?_
    intro b hb
    dsimp only at hb
    split at hb
    · exact hwithout ptr b hb
    · exact hraw b hb
  | free ptr => exact hwithout ptr
  | posixMemalign alignment size => exact h.2.elim
  | write ptr i v => exact hraw

theorem Held.intact (h : Held c slots) (hraw : ∀ b ∈ c.live, b.raw = b.ptr) : c.Intact slots := by
  have hroom : ∀ b ∈ c.live, ∃ n, b.size ≤ n ∧ Room c.st slots b.ptr n := by
    intro b hb
    obtain ⟨n, hn, -, hge⟩ := h.rooms b hb
    rw [hraw b hb] at hn hge
    exact ⟨n, by omega, hn⟩
  refine ⟨?_, ?_, hroom, ?_, ?_⟩
  · rcases h.rep.heap with hnone | ⟨hhead, hlaid⟩
    · exact .inl hnone
    · exact .inr ⟨hhead, hlaid.nonempty, hlaid.chain⟩
  · intro b hb
    obtain ⟨n, -, hn⟩ := hroom b hb
    exact (h.rep.room_bounds hn).2.1
  · refine h.distinct.imp_of_mem ?_
    intro b b' hb hb' hne
    obtain ⟨n, hle, hn⟩ := hroom b hb
    obtain ⟨n', hle', hn'⟩ := hroom b' hb'
    rw [hraw b hb, hraw b' hb'] at hne
    have := h.rep.rooms_apart hn hn'
    omega
  intro b hb
  obtain ⟨n, hle, hn⟩ := hroom b hb
  constructor
  · intro y s hy
    have := h.rep.room_apart_header hn (.inl ⟨rfl, s.free, hy⟩)
    omega
  intro r hr
  have := h.rep.room_apart_header hn (h.rep.map_region hr)
  omega

theorem Held.preserves (h : Held c slots) (hf : c.Fair a) : c.Preserves a := by
  constructor
  · obtain ⟨_, hs⟩ := h.step hf
    exact hs.others
  intro p size q heq hq hne b hb hbp i hi
  obtain ⟨sys, call⟩ := a
  obtain rfl : call = .realloc p size := heq
  obtain ⟨_, -, hmoved⟩ := h.realloc hf
  exact hmoved q hq hne b hb hbp i (by omega) (by omega)

/-- In every run of `malloc`, `calloc`, `realloc`, `free` and writes to blocks in which only live
pointers are freed and reallocated, the blocks are intact, whatever the next call is. -/
theorem live_blocks_intact (m : ByteMem) (run : List (Sys × MallocCall))
    (h : Along step Proper (start m) run) :
    (∃ slots, (final step (start m) run).Intact slots) ∧
      ∀ a, (final step (start m) run).Proper a → (final step (start m) run).Preserves a := by
  obtain ⟨slots, hheld⟩ := held_final (h.mono fun _ _ h => h.fair)
  have hstep : ∀ (c : Program) (a : Sys × MallocCall), (∀ b ∈ c.live, b.raw = b.ptr) →
      c.Proper a → ∀ b ∈ (c.step a).1.live, b.raw = b.ptr := fun c a hraw ha => ha.raw hraw
  have hraw : ∀ b ∈ (final step (start m) run).live, b.raw = b.ptr :=
    final_invariant_along hstep (by simp [start]) h
  exact ⟨⟨slots, hheld.intact hraw⟩, fun a ha => hheld.preserves ha.fair⟩

end Intact

/-- A heap between 0x10000 and 2^40, and no mappings. -/
def smallSys : Sys where
  brk x := if 0x10000 ≤ x ∧ x ≤ 2 ^ 40 then x else 0x10000
  mmap _ := none

/-- The same with a mapping for the next request. -/
def mapSys : Sys := { smallSys with mmap := fun n => if n ≤ 2 ^ 40 then some (2 ^ 41) else none }

theorem smallSys_ok {st : Malloc} (hmaps : ∀ r ∈ st.maps, 2 ^ 41 ≤ r.1)
    (hbase : st.heapHead = 0 ∨ st.heapBase = 0x10000) : SysOk smallSys st := by
  have hb : (if st.heapHead = 0 then smallSys.brk 0 else st.heapBase) = 0x10000 := by
    split
    · rfl
    · rename_i h0
      exact hbase.resolve_left h0
  constructor
  · rw [hb]
    intro x hx
    have hrange : 0x10000 ≤ x ∧ x ≤ 2 ^ 40 := by
      simp only [smallSys] at hx
      split at hx
      · assumption
      · omega
    refine ⟨by decide, by decide, hrange.1, by omega, fun r hr => ?_⟩
    have hr := hmaps r hr
    exact .inl (by omega)
  · intro n a hmap
    cases hmap

theorem mapSys_ok {st : Malloc} (hmaps : st.maps = [])
    (hbase : st.heapHead = 0 ∨ st.heapBase = 0x10000) (hend : st.heapEnd ≤ 2 ^ 40) :
    SysOk mapSys st := by
  refine ⟨(smallSys_ok (by simp [hmaps]) hbase).1, fun n a hmap => ?_⟩
  simp only [mapSys] at hmap
  split_ifs at hmap
  obtain rfl := Option.some.inj hmap
  exact ⟨by decide, by decide, by omega, by simp [hmaps], fun _ => .inl (by omega)⟩

/-- Two blocks, the first of which is freed. -/
theorem live_blocks_intact_freed :
    ∃ slots, (final step (start fun _ => 0)
      [(smallSys, .malloc 100), (smallSys, .malloc 40), (smallSys, .free 0x10020)]).Intact slots := by
  refine (live_blocks_intact (fun _ => 0) _ ?_).1
  have hfirst : (⟨0x10020, 0x10020, 100⟩ : Block) ∈ (final step (start fun _ => 0)
      [(smallSys, .malloc 100), (smallSys, .malloc 40)]).live := by decide +kernel
  exact ⟨⟨smallSys_ok (by decide) (.inl rfl), by decide⟩,
    ⟨smallSys_ok (by decide +kernel) (by decide +kernel), by decide⟩,
    ⟨smallSys_ok (by decide +kernel) (by decide +kernel), .inr ⟨_, hfirst, rfl, rfl⟩⟩, trivial⟩

/-! ## Memory comes back -/

/-- What is freed in a run of fair calls comes back, the other used segments and mappings stay what
they are, and what `posix_memalign` returns is aligned and long enough. -/
theorem freed_memory_returned (m : ByteMem) (run : List (Sys × MallocCall))
    (h : Along step Fair (start m) run) (sys : Sys) :
    ∃ slots, Rep (final step (start m) run).st slots ∧
      (∀ p, (final step (start m) run).Fair (sys, .free p) →
        ∃ slots', Rep ((final step (start m) run).step (sys, .free p)).1.st slots' ∧
          (p ≠ 0 → ∃ k, Room (final step (start m) run).st slots p k ∧
            Returned p k (final step (start m) run).st
              ((final step (start m) run).step (sys, .free p)).1.st slots') ∧
          ∀ q n, Room (final step (start m) run).st slots q n → q ≠ p →
            Room ((final step (start m) run).step (sys, .free p)).1.st slots' q n) ∧
      (∀ alignment size q, (final step (start m) run).Fair (sys, .posixMemalign alignment size) →
        ((final step (start m) run).step (sys, .posixMemalign alignment size)).2 = .ok q →
        size ≠ 0 → q % alignment = 0 ∧
          ∃ slots' raw n,
            Rep ((final step (start m) run).step (sys, .posixMemalign alignment size)).1.st slots' ∧
            Room ((final step (start m) run).step (sys, .posixMemalign alignment size)).1.st slots'
              raw n ∧ raw ≤ q ∧ q + size ≤ raw + n) := by
  obtain ⟨slots, hheld⟩ := held_final h
  refine ⟨slots, hheld.rep, ?_, ?_⟩
  · intro p hf
    obtain ⟨slots', hserved, hkeep, hret⟩ := hheld.free hf
    exact ⟨slots', hserved.held.rep, hret, fun q n hq hne => (hkeep q n hq hne).1⟩
  intro alignment size q hf hq hne
  obtain ⟨slots', hserved, hres⟩ := hheld.posixMemalign hf
  obtain ⟨hmod, b, hb, hptr, hsize⟩ := hres q hq hne
  obtain ⟨n, hroom, hle, hge⟩ := hserved.held.rooms b hb
  rw [hptr, hsize] at hge
  rw [hptr] at hle
  exact ⟨hmod, slots', b.raw, n, hserved.held.rep, hroom, hle, hge⟩

/-- Two blocks in the heap and one in a mapping. -/
def threeBlocks : Program := final step (start fun _ => 0)
  [(smallSys, .malloc 100), (smallSys, .malloc 40), (mapSys, .malloc 0x40000)]

/-- The first of three blocks is freed and the other two stay; then an aligned block is made. -/
theorem freed_memory_returned_small :
    threeBlocks.live.map Block.ptr = [0x20000000018, 0x100b0, 0x10020] ∧
      (∃ slots slots' k, Returned 0x10020 k threeBlocks.st
        (threeBlocks.step (smallSys, .free 0x10020)).1.st slots' ∧
        ∀ q n, Room threeBlocks.st slots q n → q ≠ 0x10020 →
          Room (threeBlocks.step (smallSys, .free 0x10020)).1.st slots' q n) ∧
      ∃ q, (threeBlocks.step (smallSys, .posixMemalign 64 100)).2 = .ok q ∧ q % 64 = 0 := by
  have hok : SysOk smallSys threeBlocks.st :=
    smallSys_ok (by decide +kernel) (by decide +kernel)
  have hfirst : (⟨0x10020, 0x10020, 100⟩ : Block) ∈ threeBlocks.live := by decide +kernel
  obtain ⟨slots, -, hfree, halign⟩ := freed_memory_returned (fun _ => 0)
    [(smallSys, .malloc 100), (smallSys, .malloc 40), (mapSys, .malloc 0x40000)]
    ⟨⟨smallSys_ok (by decide) (.inl rfl), by decide⟩,
      ⟨smallSys_ok (by decide +kernel) (by decide +kernel), by decide⟩,
      ⟨mapSys_ok (by decide +kernel) (by decide +kernel) (by decide +kernel), by decide⟩, trivial⟩
    smallSys
  obtain ⟨slots', -, hret, hkeep⟩ := hfree 0x10020 ⟨hok, .inr ⟨_, hfirst, rfl, rfl⟩⟩
  obtain ⟨k, -, hk⟩ := hret (by decide)
  refine ⟨by decide +kernel, ⟨slots, slots', k, hk, hkeep⟩, 0x10140, by decide +kernel, ?_⟩
  exact (halign 64 100 0x10140 ⟨hok, by decide⟩ (by decide +kernel) (by decide)).1

/-- A block of `posix_memalign` that is freed stays where it is: its pointer is not the one behind
the header of its segment. -/
theorem aligned_block_not_returned :
    ((start fun _ => 0).step (smallSys, .posixMemalign 16 100)).2 = .ok 0x10030 ∧
    (final step (start fun _ => 0)
      [(smallSys, .posixMemalign 16 100), (smallSys, .free 0x10030)]).st =
      ((start fun _ => 0).step (smallSys, .posixMemalign 16 100)).1.st ∧
    (final step (start fun _ => 0)
      [(smallSys, .posixMemalign 16 100), (smallSys, .free 0x10030)]).live = [] ∧
    (heapSeg ((start fun _ => 0).step (smallSys, .posixMemalign 16 100)).1.st.mem
      0x10000).free = 0 := by
  refine ⟨by decide +kernel, ?_, by decide +kernel, by decide +kernel⟩
  have hlist : ((start fun _ => 0).step (smallSys, .posixMemalign 16 100)).1.st.largeAllocList = 0 :=
    by decide +kernel
  have hmagic : (heapSeg ((start fun _ => 0).step (smallSys, .posixMemalign 16 100)).1.st.mem
      (0x10030 - heapSegSize)).magic ≠ heapMagic := by decide +kernel
  rw [final_cons, final_cons, final_nil]
  generalize ((start fun _ => 0).step (smallSys, .posixMemalign 16 100)).1 = c at *
  show c.st.free c.fuel 0x10030 = c.st
  unfold free
  rw [if_neg (by decide), hlist, unlinkLarge_null]
  dsimp only
  unfold heapFree
  rw [if_neg (by decide), if_pos hmagic]

end Program

end Vespera.Userspace
