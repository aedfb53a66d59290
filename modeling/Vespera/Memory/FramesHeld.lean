import Vespera.Memory.SoundCuts

/-! # Frames in use are not free

A frame that a present page of an address space shows, that is a page of an object, or that is the
trampoline is not in the allocator, and no frame is given back twice. The system does not keep this
in general: whoever ends a unit or a realm gives back frames that are still mapped
(`exitUnit_frees_mapped`, `exitRealm_frees_mapped`), and so do a failing creation of a unit,
a shared object that shrinks while it is mapped, and calls whose ranges overlap what is there.

`Tame` is the condition on a step that excludes these. The main result `frames_held` is that in a
run of tame steps no frame in use is ever free; it rests on `step_sound`, which has one lemma for
each call.
-/

namespace Vespera.Memory

open Function List Lib Realms PageTable

/-! ## Room for tables -/

theorem FrameAllocator.HasRun.mono {fa : FrameAllocator} {n m : Nat} (h : fa.HasRun n)
    (hle : m ≤ n) : fa.HasRun m := by
  obtain ⟨hzero, i, hi, hhint, hfree⟩ := h
  exact ⟨hzero, i, hi, hhint, fun j hj => hfree j (Nat.lt_of_lt_of_le hj hle)⟩

/-- A table takes at most one frame. -/
theorem ensureTable_hasRun {ph ph' : Phys} {pt pt' : PageTable} {level page parent m : Nat}
    {t : Option Nat} (h : ph.alloc.HasRun (1 + m))
    (hx : ensureTable ph pt level page parent = (ph', pt', t)) : ph'.alloc.HasRun m := by
  have hrequest : ph.requestPage.1.alloc.HasRun m := h.requestPages
  unfold ensureTable at hx
  dsimp only at hx
  split at hx
  · cases hx
    exact h.mono (Nat.le_add_left m 1)
  split_ifs at hx
  · cases hx
    exact hrequest
  · cases hx
    exact hrequest

/-- A page takes at most three tables. -/
theorem mapMemory_hasRun {ph : Phys} {m : Nat} (h : ph.alloc.HasRun (3 + m)) {pt : PageTable}
    {va pa : Nat} {writable present : Bool} {origin : Origin} :
    (mapMemory ph pt va pa writable present origin).1.alloc.HasRun m := by
  refine mapMemory_rule (P := fun level _ ph _ => ph.alloc.HasRun (level + m))
    (Q := fun ph _ => ph.alloc.HasRun m) h ?_ ?_
  · intro level parent ph1 pt1 ph2 pt2 t hrun hx
    have hrest : ph2.alloc.HasRun (level + m) := ensureTable_hasRun (hrun.mono (by omega)) hx
    exact ⟨fun _ => hrest.mono (Nat.le_add_left m level), fun _ _ => hrest⟩
  · intro t ph1 pt1 hrun
    -- writing the entry takes nothing
    rwa [Nat.zero_add] at hrun

namespace VmSt

variable {st st' : VmSt} {unit : Nat → Option VmUnit} {u r : Nat} {x : VmUnit}
  {va n i : Nat} {ph : Phys} {kind : RunKind} {cfg : UnitSetup} {pt : PageTable}

theorem mapPage_hasRun {m : Nat} (h : st.phys.alloc.HasRun (3 + m)) {pa : Nat}
    {writable present : Bool} {origin : Origin} :
    (st.mapPage r va pa writable present origin).phys.alloc.HasRun m := by
  unfold mapPage
  split
  · exact h.mono (by omega)
  · exact mapMemory_hasRun h

theorem mapRun_hasRun {m : Nat} (h : st.phys.alloc.HasRun (3 * n + m)) (r va pa u : Nat)
    (kind : RunKind) (i : Nat) : (mapRun r va pa u kind n i st).phys.alloc.HasRun m := by
  induction n generalizing st i with
  | zero => exact h.mono (by omega)
  | succ n ih =>
    rw [mapRun]
    exact ih (mapPage_hasRun (h.mono (by omega))) _

/-! ## Realms -/

/-- A new address space shows the trampoline and nothing else. -/
theorem newSpace_sound (h : st.Sound st.unit) (hnone : st.space r = none) {f : Nat}
    (hf : st.Loose f) (hfree : ∀ g, ph.Free g → st.phys.Free g)
    (honce : ph.freedTwice = st.phys.freedTwice) :
    ((st.setTable r ph (emptyTable f)).mapPage r trampolineVaddr st.trampoline false true
      .trampoline).Sound st.unit := by
  have hframes := h.frames.newSpace (r := r) hf hfree honce
  have hmapped : (st.setTable r ph (emptyTable f)).Mapped st.unit := by
    refine h.mapped.shrink (fun r' hr => ?_) (fun r' p l hl => ?_) (.refl _) rfl
    · by_cases hrr : r' = r
      · simp [hrr]
      · simpa [hrr] using hr
    obtain ⟨e, he, hl⟩ := lenderAt_eq_some.mp hl
    rw [leafAt_setTable] at he
    split_ifs at he
    · cases he
    · exact lenderAt_eq_some.mpr ⟨e, he, hl⟩
  have hown : (st.setTable r ph (emptyTable f)).ownerAt .trampoline = some st.trampoline := rfl
  have hmay : (st.setTable r ph (emptyTable f)).Mappable (frameOf st.trampoline) .trampoline := by
    rw [(hframes.held _ _ hown).1]
    exact hown
  refine ⟨hframes.mapPage r _ hmay _ _, hmapped.mapPage _ _ _ ⟨fun w y hy hr _ => ?_, nofun⟩⟩
  -- the realm has no units yet
  have hlive := (h.mapped.live w y hy).2
  rw [hr, hnone] at hlive
  cases hlive

theorem createRealm_sound (h : st.Sound st.unit) (r : Nat) :
    (st.createRealm r).1.Sound (st.createRealm r).1.unit := by
  unfold createRealm
  split
  · exact h
  rename_i hnone
  rw [Bool.not_eq_true, Option.isSome_eq_false_iff, Option.isNone_iff_eq_none] at hnone
  obtain ⟨hframes, hloose⟩ := h.frames.requestPage
  have hsound : st.requestPage.1.Sound st.requestPage.1.unit := ⟨hframes, h.mapped.setPhys _⟩
  dsimp only
  split
  · exact hsound
  · rename_i hne
    rw [mapPage_unit]
    exact newSpace_sound hsound hnone (hloose hne) (fun g hg => hg) rfl

/-! ## Units -/

theorem mapPage_setUnit {w : Nat} {pa : Nat} {writable present : Bool}
    {origin : Origin} : (st.mapPage r va pa writable present origin).setUnit w x =
      (st.setUnit w x).mapPage r va pa writable present origin := by
  have hspace : (st.setUnit w x).space r = st.space r := rfl
  unfold mapPage
  rw [hspace]
  cases st.space r <;> rfl

theorem mapRun_setUnit {w : Nat} {pa : Nat} :
    (mapRun r va pa u kind n i st).setUnit w x = mapRun r va pa u kind n i (st.setUnit w x) := by
  induction n generalizing st i with
  | zero => rfl
  | succ n ih => rw [mapRun, mapRun, ih, mapPage_setUnit]

/-- The pages of an unclaimed range may be mapped, on loan from anything but an object. -/
theorem Unclaimed.mayMap {base : Nat} (h : st.Unclaimed r base n) (hst : st.Mapped st.unit)
    (hbase : pageSize ∣ base) (hbound : base + n * pageSize ≤ userEnd) {j : Nat} (hj : j < n)
    {s : Site} (hs : ∀ o i, s ≠ .object o i) :
    MayMap st.unit r (pageOf (base + j * pageSize)) (some s) := by
  have hjn : (j + 1) * pageSize ≤ n * pageSize := Nat.mul_le_mul_right _ hj
  rw [Nat.succ_mul] at hjn
  have hpos : 0 < pageSize := by decide
  have hpage := pageOf_add_mul (i := j) hbase (by omega)
  refine ⟨fun w y hy hr hown => ?_, fun o i hl => absurd (Option.some.inj hl) (hs o i)⟩
  subst hr
  refine absurd hown (h.not_ownMemory (hst.live w y hy).1 hy ?_ ?_)
  · rw [hpage]
    exact Nat.le_add_right _ _
  · rw [Nat.succ_mul, hpage]
    omega

/-- `map_range` of frames that the unit owns. -/
theorem mapRun_sound (h : st.Sound unit) {pa : Nat} (hmap : ∀ j, i ≤ j → j < i + n →
      MayMap unit r (pageOf (va + j * pageSize)) (some (.run u kind j)))
    (hown : ∀ j, i ≤ j → j < i + n → runAt (st.unit u) kind j = some (pa + j * pageSize)) :
    (mapRun r va pa u kind n i st).Sound unit := by
  induction n generalizing st i with
  | zero => exact h
  | succ n ih =>
    rw [mapRun]
    have howner : st.ownerAt (.run u kind i) = some (pa + i * pageSize) := by
      rw [ownerAt_run]
      exact hown i le_rfl (by omega)
    have hmay : st.Mappable (frameOf (pa + i * pageSize)) (.run u kind i) := by
      rw [(h.frames.held _ _ howner).1]
      exact howner
    have hstep : (st.mapPage r (va + i * pageSize) (pa + i * pageSize) true true
        (.run u kind i)).Sound unit :=
      ⟨h.frames.mapPage r _ hmay _ _, h.mapped.mapPage _ _ _ (hmap i le_rfl (by omega))⟩
    refine ih hstep (fun j hj hj' => hmap j (by omega) (by omega)) fun j hj hj' => ?_
    rw [mapPage_unit]
    exact hown j (by omega) (by omega)

/-- `request_pages_phys` with `memset` gives loose frames. -/
theorem requestZeroed_sound (h : st.Sound unit) (n : Nat) :
    (st.requestZeroed n).1.Sound unit ∧ ((st.requestZeroed n).2 ≠ 0 →
      ∀ i, i < n → (st.requestZeroed n).1.Loose ((st.requestZeroed n).2 + i * pageSize)) := by
  obtain ⟨hframes, hloose⟩ := h.frames.request n
  unfold requestZeroed
  dsimp only
  split
  · exact ⟨⟨hframes, h.mapped.setPhys _⟩, fun hne => absurd rfl hne⟩
  · rename_i hne
    refine ⟨⟨hframes.setPhys (fun f hf => hf) rfl, h.mapped.setPhys _⟩, fun _ i hi => ?_⟩
    exact ((hloose hne).2 i hi).setPhys fun f hf => hf

@[simp] theorem requestZeroed_unit {st : VmSt} {n : Nat} :
    (st.requestZeroed n).1.unit = st.unit := calls_unit.requestZeroed

theorem requestZeroed_setUnit {w : Nat} : (st.setUnit w x).requestZeroed n =
    ((st.requestZeroed n).1.setUnit w x, (st.requestZeroed n).2) := by
  unfold requestZeroed
  dsimp only
  have hphys : (st.setUnit w x).phys = st.phys := rfl
  rw [hphys]
  split <;> rfl

theorem setUnit_setUnit {w : Nat} {y : VmUnit} : (st.setUnit w x).setUnit w y = st.setUnit w y := by
  simp [setUnit]

/-- Loose frames become a run of a unit. -/
theorem addRun_sound (h : st.Sound unit) {f : Nat} (hnone : ∀ i, runAt (st.unit u) kind i = none)
    (hsame : ∀ kind' i, kind' ≠ kind → runAt (some x) kind' i = runAt (st.unit u) kind' i)
    (hx : x.run kind = some ⟨f, n⟩) (hloose : ∀ i, i < n → st.Loose (f + i * pageSize)) :
    (st.setUnit u x).Sound unit :=
  ⟨(h.frames.addRun hnone hsame hx hloose).1, h.mapped.same rfl rfl rfl⟩

/-- A unit that is new has no areas and no heap. -/
theorem Mapped.addUnit (h : st.Mapped unit) (hu : u < maxUnits) (hnone : unit u = none)
    (hspace : (st.space x.realm).isSome) (hvmas : x.vmas = []) (hheap : x.heapEnd = x.heapStart) :
    st.Mapped (update unit u (some x)) := by
  have hareas : ∀ o, areasOf (update unit u (some x)) o = areasOf unit o := by
    intro o
    refine Finset.sum_congr rfl fun w _ => ?_
    by_cases hw : w = u
    · subst hw
      rw [update_self, hnone, Option.elim_some, hvmas]
      rfl
    · rw [update_of_ne hw]
  refine h.putUnit hu hspace ?_ ?_ ?_ ?_ (.inl hheap)
  · -- it has no memory
    rintro p l (⟨v, hv, -⟩ | ⟨hlow, hhigh⟩) -
    · rw [hvmas] at hv
      cases hv
    · rw [hheap] at hhigh
      omega
  · intro y hy
    rw [hnone] at hy
    cases hy
  · intro o b hb
    rw [hareas]
    exact (h.counted o b hb).1
  · intro v hv
    rw [hvmas] at hv
    cases hv

/-- Request frames, give them to a unit as one of its runs, write to them and map them. -/
theorem newRun_sound (h : (st.setUnit u x).Sound unit) {x' : VmUnit}
    (hnone : ∀ i, runAt (some x) kind i = none)
    (hsame : ∀ kind' i, kind' ≠ kind → runAt (some x') kind' i = runAt (some x) kind' i)
    (hx' : x'.run kind = some ⟨(st.requestZeroed n).2, n⟩) (hne : (st.requestZeroed n).2 ≠ 0)
    (hmap : ∀ j, j < n → MayMap unit r (pageOf (va + j * pageSize)) (some (.run u kind j)))
    (mem : ByteMem) : ((mapRun r va (st.requestZeroed n).2 u kind n 0 { (st.requestZeroed n).1 with
      phys := { (st.requestZeroed n).1.phys with mem := mem } }).setUnit u x').Sound unit := by
  obtain ⟨hsound, hloose⟩ := requestZeroed_sound h n
  rw [requestZeroed_setUnit] at hsound hloose
  generalize (st.requestZeroed n).1 = st1 at *
  generalize (st.requestZeroed n).2 = f at *
  have hself : (st1.setUnit u x).unit u = some x := by simp
  have hrun := addRun_sound hsound (x := x') (by rw [hself]; exact hnone) (by rw [hself]; exact hsame)
    hx' (hloose hne)
  rw [setUnit_setUnit] at hrun
  rw [mapRun_setUnit]
  have hwrite : (({ st1 with phys := { st1.phys with mem := mem } } : VmSt).setUnit u x').Sound unit :=
    ⟨hrun.frames.setPhys (fun g hg => hg) rfl, hrun.mapped.setPhys _⟩
  refine mapRun_sound (i := 0) (n := n) hwrite (fun j _ hj => hmap j (by omega)) fun j _ hj => ?_
  simp only [setUnit_unit, update_self]
  exact (runAt_eq_some hx').mpr ⟨by omega, rfl⟩

/-- A unit before it has any frames. -/
def bareUnit (r : Nat) (cfg : UnitSetup) : VmUnit :=
  ⟨r, true, cfg.heapStart, cfg.heapStart, [], ⟨0, 0⟩, none, none⟩

theorem bareUnit_runs (r : Nat) (cfg : UnitSetup) (kind : RunKind) (i : Nat) :
    runAt (some (bareUnit r cfg)) kind i = none := by
  cases kind <;> simp [runAt, bareUnit, VmUnit.run]

/-- A new unit gets its user stack. -/
theorem userStack_sound (h : st.Sound st.unit) (hnone : st.unit u = none)
    (hne : (st.requestZeroed cfg.stackPages).2 ≠ 0)
    (hmap : ∀ j, j < cfg.stackPages →
      MayMap st.unit r (pageOf (cfg.stackBase + j * pageSize)) (some (.run u .userStack j))) :
    ((mapRun r cfg.stackBase (st.requestZeroed cfg.stackPages).2 u .userStack cfg.stackPages 0
      (st.requestZeroed cfg.stackPages).1).setUnit u { bareUnit r cfg with
        userStack := some ⟨(st.requestZeroed cfg.stackPages).2, cfg.stackPages⟩ }).Sound st.unit := by
  have hruns : ∀ kind i, runAt (some (bareUnit r cfg)) kind i = runAt (st.unit u) kind i := by
    intro kind i
    rw [bareUnit_runs, hnone]
    rfl
  have hbare : (st.setUnit u (bareUnit r cfg)).Sound st.unit :=
    ⟨(Keeping.setUnit h.frames hruns).1, h.mapped.same rfl rfl rfl⟩
  refine newRun_sound hbare (bareUnit_runs r cfg .userStack) (fun kind' i hk => ?_) rfl hne hmap
    (st.requestZeroed cfg.stackPages).1.phys.mem
  cases kind' with
  | userStack => exact absurd rfl hk
  | _ => rfl

/-- A unit gets its kernel stack, which is not mapped. -/
theorem kernelStack_sound (h : (st.setUnit u x).Sound unit) (hnone : x.stack.pages = 0)
    (hne : (st.requestZeroed n).2 ≠ 0) :
    ((st.requestZeroed n).1.setUnit u { x with stack := ⟨(st.requestZeroed n).2, n⟩ }).Sound unit := by
  obtain ⟨hsound, hloose⟩ := requestZeroed_sound h n
  rw [requestZeroed_setUnit] at hsound hloose
  have hself : ((st.requestZeroed n).1.setUnit u x).unit u = some x := by simp
  have hrun : (((st.requestZeroed n).1.setUnit u x).setUnit u
      { x with stack := ⟨(st.requestZeroed n).2, n⟩ }).Sound unit := by
    refine addRun_sound hsound (fun i => ?_) (fun kind' i hk => ?_)
      (show VmUnit.run _ .stack = _ from rfl) (hloose hne)
    · simp [runAt, VmUnit.run, hnone]
    rw [hself]
    cases kind' with
    | stack => exact absurd rfl hk
    | _ => rfl
  rwa [setUnit_setUnit] at hrun

/-- `setup_tls_block` for a unit that has its stacks. -/
theorem setupTls_sound (h : (st.setUnit u x).Sound unit) (htls : x.tls = none)
    (hmap : ∀ j, j < cfg.tlsPages →
      MayMap unit r (pageOf (cfg.tlsBase + j * pageSize)) (some (.run u .tls j))) :
    ((st.setupTls u r cfg).1.setUnit u { x with tls := (st.setupTls u r cfg).2 }).Sound unit := by
  have hself : ({ x with tls := none } : VmUnit) = x := by rw [← htls]
  unfold setupTls
  split
  · rw [hself]
    exact h
  dsimp only
  split
  · have hsound := (requestZeroed_sound h cfg.tlsPages).1
    rw [requestZeroed_setUnit] at hsound
    rw [hself]
    exact hsound
  rename_i hne
  refine newRun_sound h (fun i => ?_) (fun kind' i hk => ?_) rfl hne hmap _
  · simp [runAt, VmUnit.run, htls]
  · cases kind' with
    | tls => exact absurd rfl hk
    | _ => rfl

theorem mapRun_space {pa : Nat} {r' : Nat} :
    ((mapRun r va pa u kind n i st).space r').isSome = (st.space r').isSome := by
  induction n generalizing st i with
  | zero => rfl
  | succ n ih => rw [mapRun, ih, mapPage_space]

theorem requestZeroed_space : (st.requestZeroed n).1.space = st.space := by
  unfold requestZeroed
  dsimp only
  split <;> rfl

theorem requestZeroed_alloc (st : VmSt) (n : Nat) :
    (st.requestZeroed n).1.phys.alloc = (st.phys.alloc.requestPages n).1 ∧
      (st.requestZeroed n).2 = (st.phys.alloc.requestPages n).2 := by
  unfold requestZeroed
  dsimp only
  split
  · rename_i hzero
    exact ⟨rfl, hzero.symm⟩
  · exact ⟨rfl, rfl⟩

theorem setupTls_unit : (st.setupTls u r cfg).1.unit = st.unit :=
  calls_unit.setupTls fun _ => mapPage_unit _

theorem setupTls_space {r' : Nat} :
    ((st.setupTls u r cfg).1.space r').isSome = (st.space r').isSome := by
  unfold setupTls
  dsimp only
  repeat' split
  · rfl
  · rw [requestZeroed_space]
  · rw [mapRun_space]
    exact congrArg (fun s => (s r').isSome) requestZeroed_space

/-- The frames for the user stack and its tables leave enough for the kernel stack. -/
theorem kernelStack_found {s k : Nat} (h : st.phys.alloc.HasRun (4 * s + k)) (hk : 0 < k)
    (r va pa u : Nat) (kind : RunKind) :
    ((mapRun r va pa u kind s 0 (st.requestZeroed s).1).requestZeroed k).2 ≠ 0 := by
  have hstack : (st.requestZeroed s).1.phys.alloc.HasRun (3 * s + k) := by
    rw [(requestZeroed_alloc st s).1]
    exact (h.mono (by omega)).requestPages
  rw [(requestZeroed_alloc _ k).2]
  exact (mapRun_hasRun hstack r va pa u kind 0).requestPages_ne_zero hk

theorem createUnit_sound (h : st.Sound st.unit)
    (hstack : cfg.stackBase + cfg.stackPages * pageSize ≤ userEnd)
    (htls : cfg.tlsBase + cfg.tlsPages * pageSize ≤ userEnd)
    (haligned : pageSize ∣ cfg.stackBase ∧ pageSize ∣ cfg.tlsBase)
    (hfree : st.Unclaimed r cfg.stackBase cfg.stackPages ∧ st.Unclaimed r cfg.tlsBase cfg.tlsPages)
    (hroom : 0 < cfg.kernelPages ∧ st.phys.alloc.HasRun (4 * cfg.stackPages + cfg.kernelPages)) :
    (st.createUnit u r cfg).1.Sound (st.createUnit u r cfg).1.unit := by
  unfold createUnit
  split
  · exact h
  rename_i hcond
  rw [not_or, not_or, Nat.not_le, Bool.not_eq_true, Option.isSome_eq_false_iff,
    Option.isNone_iff_eq_none, Bool.not_eq_true, Option.isNone_eq_false_iff] at hcond
  obtain ⟨hu, hnone, hspace⟩ := hcond
  dsimp only
  split
  · rw [requestZeroed_unit]
    exact (requestZeroed_sound h _).1
  rename_i hne
  have hmap : ∀ kind base n, st.Unclaimed r base n → pageSize ∣ base →
      base + n * pageSize ≤ userEnd → ∀ j, j < n →
        MayMap st.unit r (pageOf (base + j * pageSize)) (some (.run u kind j)) :=
    fun kind base n hclaim hbase hbound j hj =>
      hclaim.mayMap h.mapped hbase hbound hj (fun _ _ => by nofun)
  rw [if_neg (kernelStack_found hroom.2 hroom.1 r _ _ u .userStack)]
  have hkernel := kernelStack_found hroom.2 hroom.1 r cfg.stackBase
    (st.requestZeroed cfg.stackPages).2 u .userStack
  -- the unit comes into being without frames, and gets its runs one after the other
  have huser := userStack_sound h hnone hne (hmap .userStack _ _ hfree.1 haligned.1 hstack)
  have hboth := kernelStack_sound huser rfl hkernel
  have hall := setupTls_sound hboth rfl (hmap .tls _ _ hfree.2 haligned.2 htls)
  refine ⟨hall.frames, ?_⟩
  rw [setUnit_unit, setupTls_unit, requestZeroed_unit, mapRun_unit, requestZeroed_unit]
  refine hall.mapped.addUnit hu hnone ?_ rfl rfl
  show (space (setupTls _ u r cfg).1 r).isSome
  rw [setupTls_space, requestZeroed_space, mapRun_space, requestZeroed_space]
  exact hspace

/-! ## Handles and shared memory -/

theorem Sound.setHandles (h : st.Sound unit) (r : Nat) (t : HandleTable (Option Nat)) :
    (st.setHandles r t).Sound unit :=
  h.same rfl rfl (fun _ => rfl) rfl rfl

theorem acquire_sound (h : st.Sound unit) {type : HandleType} {resource : Option Nat} :
    (st.acquire type resource).Sound unit := by
  unfold acquire acquireHandle
  split
  · split
    · exact h
    · rename_i hb
      exact h.setObj hb rfl rfl
  · exact h

theorem destroyHandle_sound (h : st.Sound unit) (type : HandleType) (resource : Option Nat) :
    (st.destroyHandle type resource).Sound unit := by
  unfold destroyHandle
  split
  · exact releaseHandle_sound h
  · exact h

section

variable (h : st.Sound st.unit)

include h

theorem addHandle_sound (hid : UInt64) {type : HandleType} {resource : Option Nat} :
    (st.addHandle r hid type resource).1.Sound (st.addHandle r hid type resource).1.unit := by
  unfold addHandle
  split
  · exact h
  · have hunit : (st.acquire type resource).unit = st.unit := allows_unit.acquire
    exact ((hunit.symm ▸ acquire_sound h :
      (st.acquire type resource).Sound (st.acquire type resource).unit)).setHandles r _

theorem shmCreate_sound (hid : UInt64) :
    (st.shmCreate r hid).1.Sound (st.shmCreate r hid).1.unit := by
  have hnew : st.newShm.1.Sound st.unit := h.newObj (fun f hf => by cases hf) rfl
  unfold shmCreate
  dsimp only
  split
  · rw [allows_unit.releaseHandle]
    exact releaseHandle_sound hnew
  · exact hnew.setHandles r _

theorem closeHandle_sound (hid : UInt64) :
    (st.closeHandle r hid).Sound (st.closeHandle r hid).unit := by
  unfold closeHandle
  dsimp only
  split
  · show VmSt.Sound _ (unit (st.destroyHandle _ _))
    rw [allows_unit.destroyHandle]
    exact (destroyHandle_sound h _ _).setHandles r _
  · exact h.setHandles r _

omit h in
theorem destroyHandles_sound (h : st.Sound unit) (r : Nat) (slots : List Nat) :
    (st.destroyHandles r slots).Sound unit := by
  unfold destroyHandles
  induction slots generalizing st with
  | nil => exact h
  | cons i slots ih =>
    rw [foldl_cons]
    refine ih ?_
    split
    · exact destroyHandle_sound h _ _
    · exact h

theorem clearHandles_sound : (st.clearHandles r).Sound (st.clearHandles r).unit := by
  have hslots : ∀ slots, ((st.destroyHandles r slots).setHandles r HandleTable.init).Sound
      ((st.destroyHandles r slots).setHandles r HandleTable.init).unit := by
    intro slots
    show VmSt.Sound _ (st.destroyHandles r slots).unit
    rw [allows_unit.destroyHandles]
    exact (destroyHandles_sound h r slots).setHandles r _
  exact hslots _

theorem markUnlinked_sound {o : Nat} : (st.markUnlinked o).Sound (st.markUnlinked o).unit := by
  unfold markUnlinked
  split
  · exact h
  · rename_i hb
    exact h.setObj hb rfl rfl

omit h in
/-- The number of pages of an object of a size. -/
def pagesFor (size : Nat) : Nat := (size + pageSize - 1) % 2 ^ 64 / pageSize

omit h in
/-- The object changes, but not its count. -/
theorem Mapped.resized (h : st.Mapped unit) {o : Nat} {b b' : Backing} (hb : st.obj o = some b)
    (hcount : b'.mappingCount = b.mappingCount) {fs : List Nat} :
    ((st.freeObjectPages fs).setObj o (some b')).Mapped unit := by
  have hsame : SameTables st (st.freeObjectPages fs) := SameTables.allows.freeObjectPages
  have hfreed : (st.freeObjectPages fs).Mapped unit :=
    h.same hsame.space (freeObjectPages_obj st fs) allows_nextObj.freeObjectPages
  have hb' : (st.freeObjectPages fs).obj o = some b := by rw [freeObjectPages_obj]; exact hb
  refine hfreed.setObj hb' fun b'' hb'' => ?_
  cases hb''
  rw [hcount]
  exact ⟨(h.counted o b hb).1, (h.counted o b hb).2.1⟩

omit h in
/-- `resize` of an object that is not mapped, or that does not lose pages. -/
theorem resize_sound (h : st.Sound unit) {o : Nat} {b : Backing} (hb : st.obj o = some b)
    {newSize : Nat} (hcond : b.mappingCount = 0 ∨ b.pages.length ≤ pagesFor newSize) {ok : Bool} :
    (st.resize o b newSize ok).1.Sound unit := by
  have hunlent : b.mappingCount = 0 → st.Unlent o := by
    intro hzero
    have hle := (h.mapped.counted o b hb).1
    exact h.mapped.unlent (by omega)
  unfold resize
  rw [← pagesFor]
  dsimp only
  split
  · exact h.setObj hb rfl rfl
  split
  · -- all pages go
    have hcount : b.mappingCount = 0 := by
      rcases hcond with hcount | hle
      · exact hcount
      · omega
    refine ⟨?_, Mapped.resized h.mapped hb (by rfl)⟩
    refine h.frames.cutObject (n := 0) hb (hunlent hcount) fun i f hf => ?_
    cases hf
  split
  · refine ⟨?_, Mapped.resized h.mapped hb (by rfl)⟩
    by_cases hle : b.pages.length ≤ pagesFor newSize
    · -- nothing goes: the new pages are not there yet
      rw [drop_eq_nil_of_le hle, take_of_length_le hle]
      refine (Keeping.setObj h.frames fun i => ?_).1
      rw [hb]
      refine Option.ext fun f => ?_
      rw [pageAt_eq_some, pageAt_eq_some, getElem?_append]
      split
      · rfl
      have hnone : b.pages[i]? = none := getElem?_eq_none (by omega)
      rw [hnone, getElem?_replicate]
      constructor
      · rintro ⟨hf, hne⟩
        split_ifs at hf
        exact absurd (Option.some.inj hf).symm hne
      · rintro ⟨hf, -⟩
        cases hf
    refine h.frames.cutObject hb (hunlent (hcond.resolve_right hle)) fun i f hf => ?_
    have hcut : pagesFor newSize - b.pages.length = 0 := by omega
    rw [pageAt_eq_some, hcut, replicate_zero, append_nil, getElem?_take] at hf
    obtain ⟨hf, hne⟩ := hf
    split_ifs at hf with hi
    exact ⟨hi, pageAt_eq_some.mpr ⟨hf, hne⟩⟩
  · exact h

theorem shmTruncate_sound (hid : UInt64) {length : Nat}
    (hcond : ∀ he ∈ (st.handles r).lookup hid, ∀ o ∈ he.resource, ∀ b ∈ st.obj o,
      b.mappingCount = 0 ∨ b.pages.length ≤ pagesFor length) {ok : Bool} :
    (st.shmTruncate r hid length ok).1.Sound (st.shmTruncate r hid length ok).1.unit := by
  unfold shmTruncate
  split
  · exact h
  rename_i he hlookup
  split
  · exact h
  split
  · exact h
  rename_i o b hob
  obtain ⟨o', ho', hb'⟩ := Option.bind_eq_some_iff.mp hob
  obtain ⟨b', hb', heq⟩ := Option.map_eq_some_iff.mp hb'
  cases heq
  rw [allows_unit.resize hb']
  exact resize_sound h hb' (hcond he hlookup o ho' b hb')

/-! ## The kernel, and accesses -/

theorem store_sound {b : UInt8} : (st.store r va b).Sound (st.store r va b).unit := by
  obtain ⟨ph, sp, heq⟩ := store_eq st r va b
  refine ⟨store_frames h.frames, ?_⟩
  rw [heq]
  refine h.mapped.shrink (fun r' hr => ?_) (fun r' p l hl => ?_) (.refl _) rfl
  · rw [← heq]
    unfold store
    repeat' split
    · by_cases hrr : r' = r
      · subst hrr
        simpa using hr
      · simpa [hrr] using hr
    · exact hr
    · exact hr
  rw [← heq] at hl
  obtain ⟨e', he', hl⟩ := lenderAt_eq_some.mp hl
  obtain ⟨e, he, ho | ho⟩ := leafAt_store he'
  · exact lenderAt_eq_some.mpr ⟨e, he, ho ▸ hl⟩
  · exact lenderAt_eq_some.mpr ⟨e, he, by rwa [ho, Origin.lender_written] at hl⟩

omit h in
theorem writeNode_sound (h : st.Sound unit) {node offset : Nat} {data : List UInt8} {size : Nat} :
    (st.writeNode node offset data size).Sound unit :=
  h.same rfl rfl (fun _ => rfl) rfl rfl

theorem kernelTake_sound : (st.kernelTake n).1.Sound (st.kernelTake n).1.unit := by
  refine ⟨kernelTake_frames h.frames, ?_⟩
  unfold kernelTake
  dsimp only
  split
  all_goals
    exact h.mapped.same rfl rfl rfl

theorem kernelGive_sound {f : Nat} : (st.kernelGive f).Sound (st.kernelGive f).unit := by
  refine ⟨kernelGive_frames h.frames, ?_⟩
  unfold kernelGive
  split
  · exact h.mapped.same rfl rfl rfl
  · exact h.mapped

theorem kernelStore_sound {f off : Nat} {b : UInt8} :
    (st.kernelStore f off b).Sound (st.kernelStore f off b).unit := by
  unfold kernelStore
  split
  · exact ⟨h.frames.setPhys (fun g hg => hg) rfl, h.mapped.setPhys _⟩
  · exact h

/-- `RealmManager::destroy` of a realm without an address space: there are only handles to
release. -/
theorem destroyRealm_none (hnone : st.space r = none) : st.destroyRealm r = st.clearHandles r := by
  have hunits : ∀ us, st.destroyUnits r us = st := by
    intro us
    unfold destroyUnits
    induction us with
    | nil => rfl
    | cons w us ih =>
      rw [foldl_cons, if_neg ?_, ih]
      cases hy : st.unit w with
      | none => simp
      | some y =>
        have hlive := (h.mapped.live w y hy).2
        simp only [Option.any_some, decide_eq_true_eq]
        rintro rfl
        rw [hnone] at hlive
        cases hlive
  have hspace : st.destroySpace r = st := by
    unfold destroySpace
    rw [hnone]
  unfold destroyRealm
  rw [hunits, hspace]

end

/-! ## What an end gives back

The steps that `Tame` excludes do give back frames in use: a unit that ends gives back its stack,
which stays mapped in the realm, and a realm that ends gives back every page it shows, whoever
owns it. -/

/-- Frames were given back, and none was taken. -/
structure OnlyFrees (ph ph' : Phys) : Prop where
  free : ∀ f, ph.Free f → ph'.Free f
  maxIndex : ph'.alloc.maxIndex = ph.alloc.maxIndex

theorem OnlyFrees.refl (ph : Phys) : OnlyFrees ph ph := ⟨fun _ hf => hf, rfl⟩

theorem OnlyFrees.trans {ph' ph'' : Phys} (h : OnlyFrees ph ph') (h' : OnlyFrees ph' ph'') :
    OnlyFrees ph ph'' :=
  ⟨fun f hf => h'.free f (h.free f hf), h'.maxIndex.trans h.maxIndex⟩

theorem onlyFrees_freePage (ph : Phys) (a : Nat) : OnlyFrees ph (ph.freePage a) := by
  have hmax : (ph.freePage a).alloc.maxIndex = ph.alloc.maxIndex := FrameAllocator.freePage_maxIndex
  refine ⟨fun f hf => ⟨hmax ▸ hf.1, ?_⟩, hmax⟩
  show (ph.alloc.freePage a).used _ = false
  rw [FrameAllocator.freePage_used, hf.2]
  rfl

theorem freePage_frees {a : Nat} (h : a / pageSize < ph.alloc.maxIndex) :
    (ph.freePage a).Free a := by
  refine ⟨(onlyFrees_freePage ph a).maxIndex.symm ▸ h, ?_⟩
  show (ph.alloc.freePage a).used _ = false
  rw [FrameAllocator.freePage_used]
  simp

theorem onlyFrees_foldl {step : Phys → Nat → Phys} (hstep : ∀ ph i, OnlyFrees ph (step ph i))
    (is : List Nat) (ph : Phys) : OnlyFrees ph (is.foldl step ph) := by
  induction is generalizing ph with
  | nil => exact .refl ph
  | cons i is ih => exact (hstep ph i).trans (ih (step ph i))

/-- A loop of which one round gives a frame back. -/
theorem foldl_frees {step : Phys → Nat → Phys} (hstep : ∀ ph i, OnlyFrees ph (step ph i))
    {is : List Nat} {f : Nat} (hi : i ∈ is) (hindex : f / pageSize < ph.alloc.maxIndex)
    (hround : ∀ ph, f / pageSize < ph.alloc.maxIndex → (step ph i).Free f) :
    (is.foldl step ph).Free f := by
  induction is generalizing ph with
  | nil => cases hi
  | cons j is ih =>
    rw [foldl_cons]
    rcases mem_cons.mp hi with rfl | hi
    · exact (onlyFrees_foldl hstep is _).free f (hround ph hindex)
    · exact ih hi ((hstep ph j).maxIndex.symm ▸ hindex)

theorem destroyLevel_onlyFrees (pt : PageTable) (level key t : Nat) (ph : Phys) :
    OnlyFrees ph (pt.destroyLevel level key t ph) := by
  induction level generalizing key t ph with
  | zero => exact .refl ph
  | succ level ih =>
    rw [destroyLevel]
    refine onlyFrees_foldl (fun ph i => ?_) _ ph
    split
    · split
      · split
        · exact (onlyFrees_freePage ph _).trans ⟨fun _ hf => hf, rfl⟩
        · exact .refl ph
      · exact .refl ph
    · split
      · rename_i t' _
        exact ((ih _ t' ph).trans (onlyFrees_freePage _ t')).trans ⟨fun _ hf => hf, rfl⟩
      · exact .refl ph

/-- One round of `destroy_level` over the tables of a table. -/
theorem destroyLevel_frees_below {level key t t' f : Nat} (hlevel : level ≠ 0)
    (hi : i < 512) (ht' : pt.table level (key * 512 + i) = some t')
    (hindex : f / pageSize < ph.alloc.maxIndex) (hbelow : ∀ ph, f / pageSize < ph.alloc.maxIndex →
      (pt.destroyLevel level (key * 512 + i) t' ph).Free f) :
    (pt.destroyLevel (level + 1) key t ph).Free f := by
  have hrounds := destroyLevel_onlyFrees pt
  rw [destroyLevel]
  refine foldl_frees (fun ph j => ?_) (mem_range.mpr hi) hindex fun ph hindex => ?_
  · rw [if_neg hlevel]
    split
    · rename_i t'' _
      exact ((hrounds level _ t'' ph).trans (onlyFrees_freePage _ t'')).trans ⟨fun _ hf => hf, rfl⟩
    · exact .refl ph
  · rw [if_neg hlevel, ht']
    exact (onlyFrees_freePage _ t').free f (hbelow ph hindex)

/-- `destroy_level` of the last level gives back its present pages. -/
theorem destroyLevel_frees_leaf {key t : Nat} {e : Pte} (hi : i < 512)
    (he : pt.leaf (key * 512 + i) = some e) (hpresent : e.present)
    (hindex : e.frame / pageSize < ph.alloc.maxIndex) :
    (pt.destroyLevel 1 key t ph).Free e.frame := by
  rw [destroyLevel]
  refine foldl_frees (fun ph j => ?_) (mem_range.mpr hi) hindex fun ph hindex => ?_
  · rw [if_pos rfl]
    split
    · split
      · exact (onlyFrees_freePage ph _).trans ⟨fun _ hf => hf, rfl⟩
      · exact .refl ph
    · exact .refl ph
  · rw [if_pos rfl, he]
    dsimp only
    rw [if_pos hpresent]
    exact freePage_frees hindex

/-- `destroy_userspace` gives back every page of the user half that is present. -/
theorem destroyUserspace_frees (hwalk : pt.Walkable) {p : Nat} (hp : p < kernelPage)
    {e : Pte} (he : pt.leaf p = some e) (hpresent : e.present)
    (hindex : e.frame / pageSize < ph.alloc.maxIndex) : (pt.destroyUserspace ph).Free e.frame := by
  obtain ⟨htop, hmid, hlast⟩ := hwalk p e he
  obtain ⟨t3, ht3⟩ := Option.isSome_iff_exists.mp htop
  obtain ⟨t2, ht2⟩ := Option.isSome_iff_exists.mp hmid
  obtain ⟨t1, ht1⟩ := Option.isSome_iff_exists.mp hlast
  have hsplit : ∀ q : Nat, q / 512 * 512 + q % 512 = q := fun q => Nat.div_add_mod' q 512
  have hmod : ∀ q : Nat, q % 512 < 512 := fun q => Nat.mod_lt q (by decide)
  have hdiv2 : p / 512 / 512 = p / 512 ^ 2 := Nat.div_div_eq_div_mul p 512 512
  have hdiv3 : p / 512 ^ 2 / 512 = p / 512 ^ 3 := Nat.div_div_eq_div_mul p (512 ^ 2) 512
  have hbound : p / 512 ^ 3 < 256 := by
    refine Nat.div_lt_of_lt_mul (Nat.lt_of_lt_of_le hp ?_)
    decide
  refine (onlyFrees_freePage _ pt.pml4).free _ ?_
  refine foldl_frees (fun ph i => ?_) (mem_range.mpr hbound) hindex fun ph hindex => ?_
  · split
    · rename_i t _
      exact (destroyLevel_onlyFrees pt 3 i t ph).trans (onlyFrees_freePage _ t)
    · exact .refl ph
  -- down the tables to the page
  rw [ht3]
  refine (onlyFrees_freePage _ t3).free _ ?_
  refine destroyLevel_frees_below (by decide) (hmod (p / 512 ^ 2))
    (by rw [← hdiv3, hsplit]; exact ht2) hindex fun ph hindex => ?_
  rw [← hdiv3, hsplit]
  refine destroyLevel_frees_below (by decide) (hmod (p / 512))
    (by rw [← hdiv2, hsplit]; exact ht1) hindex fun ph hindex => ?_
  rw [← hdiv2, hsplit]
  exact destroyLevel_frees_leaf (hmod p) (by rw [hsplit]; exact he) hpresent hindex

theorem onlyFrees_freePages {a : Nat} : OnlyFrees ph (ph.freePages a n) :=
  onlyFrees_foldl (fun ph _ => onlyFrees_freePage ph _) _ ph

theorem onlyFrees_freeRun (st : VmSt) (run : Option FrameRun) :
    OnlyFrees st.phys (st.freeRun run).phys := by
  cases run with
  | none => exact .refl _
  | some run => exact onlyFrees_freePages

theorem onlyFrees_releaseResources (st : VmSt) (u : Nat) :
    OnlyFrees st.phys (st.releaseResources u).phys := by
  unfold releaseResources
  split
  · exact .refl _
  · exact ((onlyFrees_freeRun st _).trans (onlyFrees_freeRun _ _)).trans (onlyFrees_freeRun _ _)

theorem allows_onlyFrees : Allows fun st st' => OnlyFrees st.phys st'.phys :=
  ⟨.refl _, .trans, onlyFrees_freePage _ _, fun _ _ => .refl _, .refl _⟩

theorem releaseResources_rest (st : VmSt) (u : Nat) : (st.releaseResources u).space = st.space ∧
    (st.releaseResources u).trampoline = st.trampoline := by
  unfold releaseResources
  split
  · exact ⟨rfl, rfl⟩
  rename_i x _
  have hsame := ((sameTables_freeRun st (some x.stack)).trans (sameTables_freeRun _ x.tls)).trans
    (sameTables_freeRun _ x.userStack)
  exact ⟨hsame.space, hsame.trampoline⟩

/-- What ending the units of a realm leaves. -/
theorem destroyUnits_rest (st : VmSt) (r : Nat) (us : List Nat) :
    (st.destroyUnits r us).space = st.space ∧ (st.destroyUnits r us).trampoline = st.trampoline ∧
      OnlyFrees st.phys (st.destroyUnits r us).phys := by
  unfold destroyUnits
  induction us generalizing st with
  | nil => exact ⟨rfl, rfl, .refl _⟩
  | cons u us ih =>
    rw [foldl_cons]
    split
    · obtain ⟨hspace, htramp, hfrees⟩ := ih (st.releaseResources u)
      have hfirst := releaseResources_rest st u
      exact ⟨hspace.trans hfirst.1, htramp.trans hfirst.2,
        (onlyFrees_releaseResources st u).trans hfrees⟩
    · exact ih st

section

variable (hpt : st.space r = some pt) (hwalk : pt.Walkable) {p : Nat} (hp : p < kernelPage) {e : Pte}
  (he : pt.leaf p = some e) (hpresent : e.present)
  (hindex : e.frame / pageSize < st.phys.alloc.maxIndex)

include hpt hwalk hp he hpresent hindex

/-- An address space that is destroyed, with the handles of its realm. -/
theorem destroySpace_frees (slots : List Nat) :
    ((st.destroySpace r).destroyHandles r slots).phys.Free e.frame ∧
      ((st.destroySpace r).destroyHandles r slots).trampoline = st.trampoline ∧
      ∀ r', r' ≠ r → ((st.destroySpace r).destroyHandles r slots).space r' = st.space r' := by
  have hdestroy : st.destroySpace r = { st with
      phys := pt.destroyUserspace st.phys
      space := update st.space r none } := by
    unfold destroySpace
    rw [hpt]
  have hsame : SameTables _ ((st.destroySpace r).destroyHandles r slots) :=
    SameTables.allows.destroyHandles
  refine ⟨allows_onlyFrees.destroyHandles.free _ ?_, ?_, fun r' hr => ?_⟩
  · rw [hdestroy]
    exact destroyUserspace_frees hwalk hp he hpresent hindex
  · refine hsame.trampoline.trans ?_
    rw [hdestroy]
  · refine (congrFun hsame.space r').trans ?_
    rw [hdestroy]
    exact update_of_ne hr _ _

/-- A realm that ends gives back every page it shows, and the other realms still show what they
did. -/
theorem exitRealm_frees_mapped :
    (st.destroyRealm r).phys.Free e.frame ∧ (st.destroyRealm r).trampoline = st.trampoline ∧
      ∀ r', r' ≠ r → (st.destroyRealm r).space r' = st.space r' := by
  have hall : ∀ us slots st', st' = (((st.destroyUnits r us).destroySpace r).destroyHandles r
      slots).setHandles r HandleTable.init → st'.phys.Free e.frame ∧
        st'.trampoline = st.trampoline ∧ ∀ r', r' ≠ r → st'.space r' = st.space r' := by
    rintro us slots st' rfl
    obtain ⟨hspace, htramp, hunits⟩ := destroyUnits_rest st r us
    have hend := destroySpace_frees (hspace.symm ▸ hpt) hwalk hp he hpresent
      (hunits.maxIndex.symm ▸ hindex) slots
    rw [hspace, htramp] at hend
    exact hend
  exact hall _ _ _ rfl

end

/-- A unit that ends gives back its user stack, and the realm still shows it. -/
theorem exitUnit_frees_mapped (hx : st.unit u = some x) {run : FrameRun}
    (hrun : x.userStack = some run) (hi : i < run.pages)
    (hindex : (run.phys + i * pageSize) / pageSize < st.phys.alloc.maxIndex) :
    (vmStep st (.exitUnit u)).1.phys.Free (run.phys + i * pageSize) ∧
      (vmStep st (.exitUnit u)).1.space = st.space := by
  have hfirst := (onlyFrees_freeRun st (some x.stack)).trans (onlyFrees_freeRun _ x.tls)
  refine ⟨?_, (releaseResources_rest st u).1⟩
  simp only [vmStep, releaseResources, hx]
  rw [hrun]
  exact foldl_frees (fun ph _ => onlyFrees_freePage ph _) (mem_range.mpr hi)
    (hfirst.maxIndex.symm ▸ hindex) fun ph hindex => freePage_frees hindex

/-! ## Tame steps -/

/-- Every page of the range that has an entry is present. -/
def PagesPresent (st : VmSt) (r base n : Nat) : Prop :=
  ∀ i, i < n → ∀ e ∈ st.leafAt r (base / pageSize + i), e.present = true

instance (st : VmSt) (r base n : Nat) : Decidable (st.PagesPresent r base n) := by
  unfold PagesPresent
  infer_instance

/-- The counts of the objects can go up by so much. -/
def RoomToCount (st : VmSt) (k : Nat) : Prop :=
  ∀ o, o < st.nextObj → ∀ b ∈ st.obj o, b.mappingCount + k < 2 ^ 32

instance (st : VmSt) (k : Nat) : Decidable (st.RoomToCount k) := by
  unfold RoomToCount
  infer_instance

/-- What a step must keep to, so that no frame in use is given back: calls map where nothing is,
unmap only pages that are present, and do not push a count over its end; a heap that shrinks is not
cut out of an object; an object that shrinks is not mapped; a unit is created when there is
room for its stacks; nobody ends who still has frames. -/
def Tame (st : VmSt) : VmAction → Prop
  | .createUnit _ r cfg =>
    (pageSize ∣ cfg.stackBase ∧ pageSize ∣ cfg.tlsBase) ∧
    (st.Unclaimed r cfg.stackBase cfg.stackPages ∧ st.Unclaimed r cfg.tlsBase cfg.tlsPages) ∧
    0 < cfg.kernelPages ∧ st.phys.alloc.HasRun (4 * cfg.stackPages + cfg.kernelPages)
  | .shmTruncate r hid length _ =>
    ∀ he ∈ (st.handles r).lookup hid, ∀ o ∈ he.resource, ∀ b ∈ st.obj o,
      b.mappingCount = 0 ∨ b.pages.length ≤ pagesFor length
  | .mmap u addr length _ _ _ _ _ =>
    (length = 0 ∨ ∀ x ∈ st.unit u, ∀ base ∈ mmapRange x addr length,
      st.RangeFree x.realm base (alignUp length / pageSize)) ∧ st.RoomToCount 1
  | .brk u addr => ∀ x ∈ st.unit u,
    (x.heapEnd < addr → st.RangeFree x.realm (alignUp x.heapEnd)
      ((alignUp addr - alignUp x.heapEnd) / pageSize)) ∧
    (addr ≤ x.heapEnd → ∀ v ∈ x.vmas, v.start ≤ addr → addr < v.top → v.backing = none)
  | .munmap u addr length _ => ∀ x ∈ st.unit u,
    st.PagesPresent x.realm (alignDown addr) (alignUp length / pageSize) ∧
      st.RoomToCount x.vmas.length
  | .mprotect u _ _ _ _ => ∀ x ∈ st.unit u, st.RoomToCount (2 * x.vmas.length)
  | .exitUnit u => st.unit u = none
  | .exitRealm r => st.space r = none
  | _ => True

instance (st : VmSt) : (a : VmAction) → Decidable (st.Tame a)
  | .createRealm _ | .createUnit .. | .addHandle .. | .closeHandle .. | .shmCreate .. | .shmUnlink ..
  | .shmTruncate .. | .mmap .. | .brk .. | .munmap .. | .mprotect .. | .store .. | .writeNode ..
  | .exitUnit _ | .exitRealm _ | .kernelTake .. | .kernelGive .. | .kernelStore .. => by
    unfold Tame
    infer_instance

theorem RoomToCount.countsLow {k : Nat} (h : st.RoomToCount k) (hst : st.Mapped unit) :
    st.CountsLow k :=
  fun o b hb => h o (hst.counted o b hb).2.2 b hb

theorem PagesPresent.allPresent {base length : Nat} (hbase : pageSize ∣ base)
    (hlen : pageSize ∣ length) (h : st.PagesPresent r base (length / pageSize)) :
    st.AllPresent r base (base + length) := by
  intro p e hlow hhigh he
  obtain ⟨k, rfl⟩ := hbase
  obtain ⟨n, rfl⟩ := hlen
  have hpos : 0 < pageSize := by decide
  rw [Nat.mul_comm pageSize k] at hlow hhigh
  rw [Nat.mul_comm pageSize n, ← Nat.add_mul] at hhigh
  have hkp : k ≤ p := Nat.lt_succ_iff.mp (Nat.lt_of_mul_lt_mul_right hlow)
  have hpn : p < k + n := Nat.lt_of_mul_lt_mul_right hhigh
  refine h (p - k) ?_ e ?_
  · rw [Nat.mul_div_cancel_left n hpos]
    omega
  · rw [Nat.mul_div_cancel_left k hpos, show k + (p - k) = p by omega]
    exact he

/-- A step that is tame and whose arguments fit keeps the frames with their owners. -/
theorem step_sound (h : st.Sound st.unit) (htidy : st.Tidy) {a : VmAction} (hfits : st.Fits a)
    (ha : st.Tame a) : (vmStep st a).1.Sound (vmStep st a).1.unit := by
  cases a with
  | createRealm r => exact createRealm_sound h r
  | createUnit u r cfg => exact createUnit_sound h hfits.1 hfits.2 ha.1 ha.2.1 ha.2.2
  | addHandle r hid type resource => exact addHandle_sound h hid
  | closeHandle r hid => exact closeHandle_sound h hid
  | shmCreate r hid => exact shmCreate_sound h hid
  | shmUnlink o => exact markUnlinked_sound h
  | shmTruncate r hid length ok => exact shmTruncate_sound h hid ha
  | mmap u addr length prot flags handle offset vmaOk =>
    exact mmap_sound h htidy hfits ha.1 (ha.2.countsLow h.mapped)
  | brk u addr =>
    exact brk_sound h htidy hfits (fun x hx => (ha x hx).1) fun x hx => (ha x hx).2
  | munmap u addr length vmaOk =>
    refine munmap_sound h htidy hfits (fun x hx => ?_) (fun x hx => ?_)
    · exact (ha x hx).1.allPresent alignDown_dvd (alignUp_dvd length)
    · exact (ha x hx).2.countsLow h.mapped
  | mprotect u addr length prot room =>
    exact mprotect_sound h htidy hfits (fun x hx => (ha x hx).countsLow h.mapped)
  | store u va b =>
    simp only [vmStep]
    cases st.unit u with
    | none => exact h
    | some x => exact store_sound h
  | writeNode node offset data size => exact writeNode_sound h
  | exitUnit u =>
    simp only [vmStep, releaseResources]
    rw [show st.unit u = none from ha]
    exact h
  | exitRealm r =>
    simp only [vmStep]
    rw [destroyRealm_none h ha]
    exact clearHandles_sound h
  | kernelTake n => exact kernelTake_sound h
  | kernelGive f => exact kernelGive_sound h
  | kernelStore f off b => exact kernelStore_sound h

/-! ## Runs -/

/-- What is in use at boot is in use once and is not free. -/
structure Started (st : VmSt) : Prop where
  booted : st.Booted
  held : ∀ s f, st.frameAt s = some f → ¬ st.phys.Free f
  unique : ∀ s s' f, st.frameAt s = some f → st.frameAt s' = some f → s = s'
  counts : ∀ o b, st.obj o = some b → b.mappingCount < 2 ^ 32
  once : st.phys.freedTwice = false

theorem Started.sound (h : st.Started) : st.Sound st.unit := by
  have hleaf : ∀ r p, st.leafAt r p = none := by
    intro r p
    rw [leafAt, h.booted.space]
    rfl
  have hown : ∀ s f, st.ownerAt s = some f → s.space = none ∧ st.frameAt s = some f := by
    intro s f hs
    cases hspace : s.space with
    | none => exact ⟨rfl, ownerAt_of_space_none hspace ▸ hs⟩
    | some r => simp [ownerAt, hspace, h.booted.space] at hs
  have haligned : ∀ s f, s.space = none → st.frameAt s = some f → frameOf f = f := by
    intro s f hspace hs
    cases s with
    | object o i =>
      simp only [frameAt, pageAt, Option.bind_eq_some_iff, Option.filter_eq_some_iff] at hs
      obtain ⟨b, hb, hf, -⟩ := hs
      exact h.booted.pages o b hb f (mem_of_getElem? hf)
    | trampoline =>
      cases hs
      exact h.booted.trampoline
    | kernel g =>
      simp only [frameAt] at hs
      split_ifs at hs with hg
      cases hs
      exact h.booted.kernel f hg
    | run u kind i => simp [frameAt, runAt, h.booted.unit] at hs
    | _ => cases hspace
  have hareas : ∀ o, areasOf st.unit o = 0 := by
    intro o
    refine Finset.sum_eq_zero fun u _ => ?_
    rw [h.booted.unit]
    rfl
  have hunit : ∀ u x, st.unit u ≠ some x := by
    intro u x
    rw [h.booted.unit]
    exact (Option.some_ne_none x).symm
  refine ⟨⟨fun s f hs => ?_, fun s s' f hs hs' => ?_, fun r p e s he => ?_, fun r pt hpt => ?_,
    h.once⟩, ⟨fun u x hx => absurd hx (hunit u x), fun u x hx => absurd hx (hunit u x),
    fun r p o i hl => ?_, fun o b hb => ?_, fun u x hx => absurd hx (hunit u x),
    fun u x hx => absurd hx (hunit u x)⟩⟩
  · obtain ⟨hspace, hs⟩ := hown s f hs
    exact ⟨haligned s f hspace hs, h.held s f hs⟩
  · exact h.unique s s' f (hown s f hs).2 (hown s' f hs').2
  · rw [hleaf] at he
    cases he
  · rw [h.booted.space] at hpt
    cases hpt
  · rw [lenderAt, hleaf] at hl
    cases hl
  · rw [hareas]
    exact ⟨Nat.zero_le _, h.counts o b hb, h.booted.objects o b hb⟩

/-- No frame is free that a present page shows, that is a page of an object, or that is the
trampoline; and none was given back twice. -/
structure FramesHeld (st : VmSt) : Prop where
  pages : ∀ r p e, st.leafAt r p = some e → e.present = true → ¬ st.phys.Free e.frame
  objects : ∀ o b, st.obj o = some b → ∀ f ∈ b.pages, f ≠ 0 → ¬ st.phys.Free f
  trampoline : ¬ st.phys.Free st.trampoline
  once : st.phys.freedTwice = false

theorem Sound.framesHeld (h : st.Sound unit) : st.FramesHeld := by
  refine ⟨fun r p e he _ => (h.frames.leaf_held he).2, fun o b hb f hf hne => ?_, ?_, h.frames.once⟩
  · obtain ⟨i, hi⟩ := mem_iff_getElem?.mp hf
    have hown : st.ownerAt (.object o i) = some f := by
      rw [ownerAt_object, hb]
      exact pageAt_eq_some.mpr ⟨hi, hne⟩
    exact (h.frames.held _ f hown).2
  · exact (h.frames.held .trampoline _ rfl).2

/-- The condition on the steps of a run. -/
def Careful (st : VmSt) (a : VmAction) : Prop := st.Fits a ∧ st.Tame a

instance (st : VmSt) (a : VmAction) : Decidable (st.Careful a) :=
  inferInstanceAs (Decidable (_ ∧ _))

/-- What a run of careful steps keeps. -/
theorem Started.sound_final (hst : st.Started) {as : List VmAction}
    (has : Along vmStep Careful st as) : (final vmStep st as).Sound (final vmStep st as).unit := by
  have hstep : ∀ s a, (VmSt.Tidy s ∧ VmSt.Sound s s.unit) → Careful s a →
      ((vmStep s a).1.Tidy ∧ (vmStep s a).1.Sound (vmStep s a).1.unit) :=
    fun s a hs ha => ⟨step_tidy hs.1 ha.1, step_sound hs.2 hs.1 ha.1 ha.2⟩
  exact (final_invariant_along hstep ⟨hst.booted.tidy, hst.sound⟩ has).2

/-- In every run of careful steps, no frame in use is free and none is given back twice. -/
theorem frames_held (hst : st.Started) {as : List VmAction} (has : Along vmStep Careful st as) :
    (final vmStep st as).FramesHeld :=
  (hst.sound_final has).framesHeld

theorem smallMachine_started : smallMachine.Started where
  booted := smallMachine_booted
  held s f hf := by
    cases s with
    | trampoline =>
      cases hf
      decide
    | _ => cases hf
  unique s s' f hf hf' := by
    cases s with
    | trampoline =>
      cases s' with
      | trampoline => rfl
      | _ => cases hf'
    | _ => cases hf
  counts _ _ h := nomatch h
  once := rfl

/-- A unit maps memory and a shared object, protects and unmaps parts of them, grows and shrinks
its heap; the shared object goes with its last mapping. -/
theorem frames_held_calls :
    (final vmStep smallMachine [.createRealm 1, .createUnit 0 1 smallUnit,
      .mmap 0 0 8192 3 0x22 0 0 true, .shmCreate 1 5, .shmTruncate 1 5 8192 true,
      .mmap 0 0 8192 3 1 5 0 true, .store 0 0x600000002000 0x5a,
      .mprotect 0 0x600000001000 4096 1 8, .munmap 0 0x600000000000 4096 true,
      .brk 0 0x401800, .brk 0 0x400000, .shmUnlink 0, .closeHandle 1 5,
      .munmap 0 0x600000002000 8192 true]).FramesHeld :=
  frames_held smallMachine_started (by decide +kernel)

/-- The frame of a page of a realm is owned by the page or its lender, and by nothing else. -/
def Isolated (st : VmSt) : Prop :=
  ∀ r p e s, st.leafAt r p = some e →
    (st.ownerAt s = some e.frame ↔ s = e.origin.lender.getD (.leaf r p))

/-- In every run of careful steps, pages show one frame only if they borrow it from one lender, and
no page shows a page table or a frame of the kernel. -/
theorem frames_isolated (hst : st.Started) {as : List VmAction}
    (has : Along vmStep Careful st as) : (final vmStep st as).Isolated := by
  have hframes := (hst.sound_final has).frames
  intro r p e s he
  have hown : (final vmStep st as).ownerAt (e.origin.lender.getD (.leaf r p)) = some e.frame := by
    cases hl : e.origin.lender with
    | none => exact ownerAt_leaf.mpr ⟨e, he, hl, rfl⟩
    | some s' => exact hframes.lent r p e s' he hl
  exact ⟨fun hs => hframes.unique _ _ _ hs hown, fun hs => hs ▸ hown⟩

/-- Two realms map one object: a page of each shows the frame, which the object owns. -/
theorem frames_isolated_shared :
    let st := final vmStep smallMachine [.createRealm 1, .createUnit 0 1 smallUnit, .shmCreate 1 5,
      .shmTruncate 1 5 8192 true, .mmap 0 0 8192 3 1 5 0 true, .createRealm 2,
      .createUnit 1 2 smallUnit, .addHandle 2 5 .shm (some 0), .mmap 1 0 4096 3 1 5 0 true]
    st.leafAt 1 0x600000000 = some ⟨0x11000, true, true, .object 0 true 0 0⟩ ∧
      st.leafAt 2 0x600000000 = some ⟨0x11000, true, true, .object 1 true 0 0⟩ ∧
      ∀ s, st.ownerAt s = some 0x11000 ↔ s = .object 0 0 := by
  intro st
  have hone : st.leafAt 1 0x600000000 = some ⟨0x11000, true, true, .object 0 true 0 0⟩ := by
    decide +kernel
  have hall : st.Isolated := frames_isolated smallMachine_started (by decide +kernel)
  exact ⟨hone, by decide +kernel, fun s => hall 1 _ _ s hone⟩

/-- A realm that ends takes the trampoline along, which another realm has mapped. -/
theorem trampoline_freed_while_mapped :
    let st := final vmStep smallMachine [.createRealm 1, .createRealm 2, .exitRealm 1]
    ∃ e, st.leafAt 2 (pageOf trampolineVaddr) = some e ∧ e.present = true ∧
      e.frame = st.trampoline ∧ st.phys.Free e.frame := by
  have hsound := createRealm_sound (createRealm_sound smallMachine_started.sound 1) 2
  have hone : ((smallMachine.createRealm 1).1.createRealm 2).1.leafAt 1 (pageOf trampolineVaddr) =
      some ⟨0x1000, true, false, .trampoline⟩ := by decide +kernel
  have htwo : ((smallMachine.createRealm 1).1.createRealm 2).1.leafAt 2 (pageOf trampolineVaddr) =
      some ⟨0x1000, true, false, .trampoline⟩ := by decide +kernel
  have htramp : ((smallMachine.createRealm 1).1.createRealm 2).1.trampoline = 0x1000 := by
    decide +kernel
  have hmax : 1 < ((smallMachine.createRealm 1).1.createRealm 2).1.phys.alloc.maxIndex := by
    decide +kernel
  have hfinal : final vmStep smallMachine [.createRealm 1, .createRealm 2, .exitRealm 1] =
      ((smallMachine.createRealm 1).1.createRealm 2).1.destroyRealm 1 := rfl
  rw [hfinal]
  generalize ((smallMachine.createRealm 1).1.createRealm 2).1 = st at *
  obtain ⟨pt, hpt, hleaf⟩ := Option.bind_eq_some_iff.mp hone
  obtain ⟨hfree, hkept, hspace⟩ := exitRealm_frees_mapped hpt (hsound.frames.walk 1 pt hpt)
    (by decide +kernel) hleaf rfl hmax
  refine ⟨_, ?_, rfl, ?_, hfree⟩
  · rw [leafAt, hspace 2 (by decide)]
    exact htwo
  · rw [hkept, htramp]

end VmSt

end Vespera.Memory
