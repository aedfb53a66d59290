import Vespera.Memory.FramesHeld

/-! # Private and shared mappings of files

`mmap` maps the pages of a file's backing object as they are, whether the mapping is private or
shared: a private store is seen by every other mapping of the file, and a shared store stays in the
object and is lost with it. So a private mapping is one only as long as nobody else maps the file,
which is what `Modest` asks of a step, and a file never shows what was stored through a shared
mapping.

The main result `sharing_modes_kept` is about runs of such steps: what was stored through a private
mapping is in a page that no other mapping shows, what was stored through a shared mapping is what
all shared mappings of the page load, the contents of files change by file writes only, and so a
shared store can be read from the file exactly if the file had that byte before.

The invariant is `Modes`: an object that a file has is either shared by all its mappings or belongs
to one private mapping. `Quiet` says what a call leaves alone, for all calls but `mmap` of a file.
-/

namespace Vespera.Memory

open Function List Lib Realms Vfs

/-! ## What pages show of objects -/

/-- A mapping that shows an object. -/
structure Loan where
  mapping : Nat
  shared : Bool
  object : Nat
deriving DecidableEq

/-- The mapping by which a page shows an object. -/
def Origin.loan : Origin → Option Loan
  | .object m shared o _ => some ⟨m, shared, o⟩
  | _ => none

@[simp] theorem Origin.loan_written {o : Origin} : o.written.loan = o.loan := by
  cases o <;> rfl

namespace VmSt

/-- Some page shows an object by this mapping. -/
def Lent (st : VmSt) (l : Loan) : Prop := ∃ r p e, st.leafAt r p = some e ∧ e.origin.loan = some l

/-- The object is one of a file. -/
def IsFile (st : VmSt) (o node : Nat) : Prop := ∃ b, st.obj o = some b ∧ b.kind = .file node

/-- Some area is for the object, in this mode. -/
def HasArea (st : VmSt) (o : Nat) (shared : Bool) : Prop :=
  ∃ u x, st.unit u = some x ∧ ∃ v ∈ x.vmas, v.backing = some o ∧ mapShared v.flags = shared

/-- What a step leaves alone. No page shows an object that did not before, but for new mappings;
file objects, their table and the files are the same, but for objects that go. -/
structure Quiet (new : Loan → Prop) (st st' : VmSt) : Prop where
  lent : ∀ l, st'.Lent l → st.Lent l ∨ new l
  areas : ∀ o shared, st'.HasArea o shared → st.HasArea o shared ∨ ∃ m, new ⟨m, shared, o⟩
  kind : ∀ o b', st'.obj o = some b' → (∃ b, st.obj o = some b ∧ b'.kind = b.kind) ∨
    (st.nextObj ≤ o ∧ b'.kind = .shm)
  table : st'.fileTable.Sublist st.fileTable
  kept : ∀ e ∈ st.fileTable, ∀ node, st'.IsFile e.obj node → e ∈ st'.fileTable
  node : ∀ n, (st'.node n).mount = (st.node n).mount ∧ (st'.node n).inodeId = (st.node n).inodeId
  content : st'.content = st.content
  next : st.nextObj ≤ st'.nextObj

variable {new : Loan → Prop} {st st' st'' : VmSt} {r o node : Nat} {vs : List VmArea} {shared : Bool}
  {st : VmSt} {r va n u i o offset : Nat} {v : VmArea} {src : Source}

/-- No object becomes one of a file. -/
theorem Quiet.file (h : Quiet new st st') (ho : st'.IsFile o node) : st.IsFile o node := by
  obtain ⟨b', hb', hkind⟩ := ho
  rcases h.kind o b' hb' with ⟨b, hb, hsame⟩ | ⟨-, hshm⟩
  · exact ⟨b, hb, hsame.symm.trans hkind⟩
  · rw [hshm] at hkind
    cases hkind

theorem Quiet.trans (h : Quiet new st st') (h' : Quiet new st' st'') : Quiet new st st'' where
  lent l hl := by
    rcases h'.lent l hl with hl | hl
    · exact h.lent l hl
    · exact .inr hl
  areas o shared ho := by
    rcases h'.areas o shared ho with ho | ho
    · exact h.areas o shared ho
    · exact .inr ho
  kind o b'' hb'' := by
    rcases h'.kind o b'' hb'' with ⟨b', hb', hsame'⟩ | ⟨hnew, hshm⟩
    · rcases h.kind o b' hb' with ⟨b, hb, hsame⟩ | ⟨hnew, hshm⟩
      · exact .inl ⟨b, hb, hsame'.trans hsame⟩
      · exact .inr ⟨hnew, hsame'.trans hshm⟩
    · exact .inr ⟨h.next.trans hnew, hshm⟩
  table := h'.table.trans h.table
  kept e he node ho := h'.kept e (h.kept e he node (h'.file ho)) node ho
  node n := ⟨(h'.node n).1.trans (h.node n).1, (h'.node n).2.trans (h.node n).2⟩
  content := h'.content.trans h.content
  next := h.next.trans h'.next

/-- Nothing changes that matters here, but for pages. -/
theorem Quiet.pages (hlent : ∀ l, st'.Lent l → st.Lent l ∨ new l) (hunit : st'.unit = st.unit)
    (hobj : st'.obj = st.obj) (htable : st'.fileTable = st.fileTable) (hnode : st'.node = st.node)
    (hcontent : st'.content = st.content) (hnext : st'.nextObj = st.nextObj) :
    Quiet new st st' where
  lent := hlent
  areas o shared ho := by
    unfold HasArea at ho
    rw [hunit] at ho
    exact .inl ho
  kind o b hb := .inl ⟨b, hobj ▸ hb, rfl⟩
  table := by rw [htable]
  kept e he _ _ := by rw [htable]; exact he
  node n := by rw [hnode]; exact ⟨rfl, rfl⟩
  content := hcontent
  next := hnext.ge

theorem lent_of_space (h : st'.space = st.space) {l : Loan} (hl : st'.Lent l) : st.Lent l := by
  unfold Lent leafAt at *
  rwa [h] at hl

/-- Nothing changes that matters here. -/
theorem Quiet.same (hspace : st'.space = st.space) (hunit : st'.unit = st.unit)
    (hobj : st'.obj = st.obj) (htable : st'.fileTable = st.fileTable) (hnode : st'.node = st.node)
    (hcontent : st'.content = st.content) (hnext : st'.nextObj = st.nextObj) : Quiet new st st' :=
  .pages (fun _ hl => .inl (lent_of_space hspace hl)) hunit hobj htable hnode hcontent hnext

theorem Quiet.refl : Quiet new st st := .same rfl rfl rfl rfl rfl rfl rfl

/-! ## Pages -/

theorem quiet_phys {ph : Phys} : Quiet new st { st with phys := ph } :=
  .same rfl rfl rfl rfl rfl rfl rfl

/-- A change of page tables only. -/
theorem Quiet.setTable {ph : Phys} {pt : PageTable}
    (hlent : ∀ l, (st.setTable r ph pt).Lent l → st.Lent l ∨ new l) :
    Quiet new st (st.setTable r ph pt) :=
  .pages hlent rfl rfl rfl rfl rfl rfl

/-- `map_memory`: the page shows what its origin says. -/
theorem quiet_mapPage {pa : Nat} {writable present : Bool} {origin : Origin}
    (hloan : ∀ l, origin.loan = some l → st.Lent l ∨ new l) :
    Quiet new st (st.mapPage r va pa writable present origin) := by
  have hlent : ∀ l, (st.mapPage r va pa writable present origin).Lent l → st.Lent l ∨ new l := by
    rintro l ⟨r', p, e, he, hl⟩
    rcases leafAt_mapPage he with hold | ⟨-, -, rfl⟩
    · exact .inl ⟨r', p, e, hold, hl⟩
    · exact hloan l hl
  unfold VmSt.mapPage at hlent ⊢
  split at hlent
  · exact .refl
  · exact .setTable hlent

theorem quiet_mapOwn {pa : Nat} {writable present : Bool}
    {origin : Origin} (horigin : origin.loan = none) :
    Quiet new st (st.mapPage r va pa writable present origin) :=
  quiet_mapPage fun l hl => by rw [horigin] at hl; cases hl

theorem quiet_unmapPage : Quiet new st (st.unmapPage r va) := by
  have hlent : ∀ l, (st.unmapPage r va).Lent l → st.Lent l ∨ new l := by
    rintro l ⟨r', p, e, he, hl⟩
    exact .inl ⟨r', p, e, leafAt_unmapPage he, hl⟩
  unfold VmSt.unmapPage at hlent ⊢
  split at hlent
  · exact .refl
  · exact .setTable hlent

/-- What `mprotect` maps again shows what it did. -/
theorem quiet_remapPage {a : Nat} {writable present : Bool} : Quiet new st
    (st.mapPage r a (st.physicalAddressIgnorePresent r a) writable present (st.originOf r a)) := by
  refine quiet_mapPage fun l hl => .inl ?_
  unfold VmSt.originOf at hl
  cases hentry : (st.space r).bind fun pt => pt.entry a with
  | none =>
    rw [hentry] at hl
    cases hl
  | some e =>
    rw [hentry] at hl
    obtain ⟨pt, hpt, he⟩ := Option.bind_eq_some_iff.mp hentry
    exact ⟨r, pageOf a, e, by rw [leafAt, hpt]; exact PageTable.leaf_of_entry he, hl⟩

theorem quiet_store {b : UInt8} : Quiet new st (st.store r va b) := by
  have hlent : ∀ l, (st.store r va b).Lent l → st.Lent l ∨ new l := by
    rintro l ⟨r', p, e', he', hl⟩
    obtain ⟨e, he, ho | ho⟩ := leafAt_store he'
    · exact .inl ⟨r', p, e, he, ho ▸ hl⟩
    · exact .inl ⟨r', p, e, he, by rwa [ho, Origin.loan_written] at hl⟩
  obtain ⟨ph, sp, heq⟩ := store_eq st r va b
  rw [heq] at hlent ⊢
  exact .pages hlent rfl rfl rfl rfl rfl rfl

/-! ## Objects -/

/-- An object changes, but not its kind. -/
theorem quiet_setObj {b b' : Backing} (hb : st.obj o = some b)
    (hkind : b'.kind = b.kind) : Quiet new st (st.setObj o (some b')) where
  lent l hl := .inl hl
  areas o shared ho := .inl ho
  kind o' c hc := by
    rcases update_eq_some hc with ⟨rfl, ⟨⟩⟩ | ⟨-, hold⟩
    · exact .inl ⟨b, hb, hkind⟩
    · exact .inl ⟨c, hold, rfl⟩
  table := .refl _
  kept e he _ _ := he
  node n := ⟨rfl, rfl⟩
  content := rfl
  next := le_rfl

/-- An object goes, and its entry in the table. -/
theorem quiet_removeObj :
    Quiet new st { st.setObj o none with fileTable := st.fileTable.filter fun e => e.obj ≠ o } := by
  have hgone : ∀ o' b, update st.obj o none o' = some b → o' ≠ o ∧ st.obj o' = some b := by
    intro o' b hb
    rcases update_eq_some hb with ⟨-, ⟨⟩⟩ | hold
    exact hold
  refine ⟨fun l hl => .inl hl, fun o shared ho => .inl ho, ?_, filter_sublist, ?_,
    fun n => ⟨rfl, rfl⟩, rfl, le_rfl⟩
  · intro o' b hb
    exact .inl ⟨b, (hgone o' b hb).2, rfl⟩
  · rintro e he node ⟨b, hb, -⟩
    exact mem_filter.mpr ⟨he, by simpa using (hgone e.obj b hb).1⟩

theorem quiet_newShm : Quiet new st st.newShm.1 where
  lent l hl := .inl hl
  areas o shared ho := .inl ho
  kind o b hb := by
    rcases update_eq_some hb with ⟨rfl, ⟨⟩⟩ | ⟨-, hold⟩
    · exact .inr ⟨le_rfl, rfl⟩
    · exact .inl ⟨b, hold, rfl⟩
  table := .refl _
  kept e he _ _ := he
  node n := ⟨rfl, rfl⟩
  content := rfl
  next := Nat.le_succ _

theorem Quiet.allows : AllowsCalls (Quiet new) where
  refl := .refl
  trans := .trans
  free := quiet_phys
  setObj := quiet_setObj
  removeObj := quiet_removeObj
  phys := .same rfl rfl rfl rfl rfl rfl rfl
  setHandles := .same rfl rfl rfl rfl rfl rfl rfl
  newShm := quiet_newShm

/-! ## Calls -/

/-- The areas of a unit come from others with the same object and mode. -/
theorem quiet_setUnit {x : VmUnit} (hx : ∀ v ∈ x.vmas, ∀ o, v.backing = some o →
      st.HasArea o (mapShared v.flags) ∨ ∃ m, new ⟨m, mapShared v.flags, o⟩) :
    Quiet new st (st.setUnit u x) where
  lent l hl := .inl hl
  areas o shared ho := by
    obtain ⟨w, y, hy, v, hv, hback, hmode⟩ := ho
    rcases update_eq_some hy with ⟨rfl, ⟨⟩⟩ | ⟨-, hold⟩
    · rw [← hmode]
      exact hx v hv o hback
    · exact .inl ⟨w, y, hold, v, hv, hback, hmode⟩
  kind o b hb := .inl ⟨b, hb, rfl⟩
  table := .refl _
  kept e he _ _ := he
  node n := ⟨rfl, rfl⟩
  content := rfl
  next := le_rfl

/-- Every area of the one list has the object and the mode of an area of the other. -/
def FromAreas (vs ws : List VmArea) : Prop :=
  ∀ w ∈ ws, ∀ o, w.backing = some o → ∃ v ∈ vs, v.backing = some o ∧ v.flags = w.flags

/-- A unit gets areas that come from its own. -/
theorem FromAreas.quiet {x x' : VmUnit} (h : FromAreas x.vmas x'.vmas) (hx : st.unit u = some x) :
    Quiet new st (st.setUnit u x') := by
  refine quiet_setUnit fun v hv o hback => ?_
  obtain ⟨w, hw, hback', hflags⟩ := h v hv o hback
  exact .inl ⟨u, x, hx, w, hw, hback', by rw [hflags]⟩

theorem fromAreas_append {ws ws' : List VmArea} :
    FromAreas vs (ws ++ ws') ↔ FromAreas vs ws ∧ FromAreas vs ws' := by
  simp only [FromAreas, mem_append, or_imp, forall_and]

theorem fromAreas_cons {ws : List VmArea} :
    FromAreas vs (v :: ws) ↔ FromAreas vs [v] ∧ FromAreas vs ws := @fromAreas_append vs [v] ws

theorem fromAreas_nil {vs : List VmArea} : FromAreas vs [] := fun _ hw => nomatch hw

theorem fromAreas_of_mem {w : VmArea} (hv : v ∈ vs)
    (hback : w.backing = v.backing) (hflags : w.flags = v.flags) : FromAreas vs [w] := by
  intro w' hw' o ho
  rw [mem_singleton.mp hw'] at ho ⊢
  exact ⟨v, hv, hback.symm.trans ho, hflags.symm⟩

theorem FromAreas.mono {vs' ws : List VmArea} (h : FromAreas vs ws) (hsub : vs ⊆ vs') :
    FromAreas vs' ws := by
  intro w hw o ho
  obtain ⟨v, hv, hrest⟩ := h w hw o ho
  exact ⟨v, hsub hv, hrest⟩

theorem fromAreas_refl (vs : List VmArea) : FromAreas vs vs := fun w hw _ ho => ⟨w, hw, ho, rfl⟩

theorem fromAreas_munmapArea {r base stop : Nat} (hv : v ∈ vs) {split : Bool} :
    FromAreas vs (st.munmapArea r base stop v split).2.1 ∧
      FromAreas vs (st.munmapArea r base stop v split).2.2 := by
  unfold VmSt.munmapArea
  split_ifs
  · exact ⟨fromAreas_of_mem hv rfl rfl, fromAreas_nil⟩
  · exact ⟨fromAreas_nil, fromAreas_nil⟩
  · exact ⟨fromAreas_nil, fromAreas_nil⟩
  · exact ⟨fromAreas_of_mem hv rfl rfl, fromAreas_of_mem hv rfl rfl⟩
  · exact ⟨fromAreas_of_mem hv rfl rfl, fromAreas_nil⟩
  · exact ⟨fromAreas_of_mem hv rfl rfl, fromAreas_nil⟩

theorem fromAreas_munmapLoop (st : VmSt) (r base stop : Nat) (vs : List (VmArea × Bool)) :
    FromAreas (vs.map Prod.fst) ((munmapLoop r base stop vs st).2.2 ++
      (munmapLoop r base stop vs st).2.1) := by
  induction vs generalizing st with
  | nil => exact fromAreas_nil
  | cons v vs ih =>
    obtain ⟨hkept, hnew⟩ := fromAreas_munmapArea (mem_cons_self (a := v.1) (l := vs.map Prod.fst))
    obtain ⟨hnew', hkept'⟩ := fromAreas_append.mp ((ih _).mono (subset_cons_self v.1 _))
    rw [munmapLoop]
    simp only [map_cons, fromAreas_append]
    exact ⟨⟨hnew', hnew⟩, hkept, hkept'⟩

theorem markSplit_fst {base stop : Nat} : (markSplit base stop vs).map Prod.fst = vs := by
  induction vs with
  | nil => rfl
  | cons v vs ih =>
    unfold markSplit
    split
    · simp [comp_def]
    · rw [map_cons, ih]

theorem quiet_munmap {addr length : Nat} {vmaOk : Bool} :
    Quiet new st (st.munmap u addr length vmaOk).1 := by
  unfold VmSt.munmap
  split
  · exact .refl
  rename_i x hx
  split
  · exact .refl
  split
  · exact .refl
  dsimp only
  split
  · exact .refl
  generalize hareas : markSplit (alignDown addr) _ x.vmas = areas
  have hfrom := fromAreas_munmapLoop st x.realm (alignDown addr)
    ((alignDown addr + alignUp length) % 2 ^ 64) areas
  rw [← hareas, markSplit_fst, hareas] at hfrom
  refine (Quiet.allows.munmapLoop quiet_unmapPage).trans (hfrom.quiet ?_)
  rw [munmapLoop_unit]
  exact hx

theorem fromAreas_protectHead (st : VmSt) (prot : Nat) (a b : Nat)
    {tails : List VmArea} (hv : v ∈ vs) (htails : FromAreas vs tails) (room : Nat) :
    FromAreas vs (protectArea.protectHead st prot v a b tails room).kept ∧
      FromAreas vs (protectArea.protectHead st prot v a b tails room).new := by
  unfold protectArea.protectHead
  split_ifs
  · exact ⟨fromAreas_of_mem hv rfl rfl, htails⟩
  · exact ⟨fromAreas_of_mem hv rfl rfl, fromAreas_cons.mpr ⟨fromAreas_of_mem hv rfl rfl, htails⟩⟩
  · exact ⟨fromAreas_of_mem hv rfl rfl, htails⟩

theorem fromAreas_protectArea {st : VmSt} {r base stop prot : Nat} (hv : v ∈ vs) {room : Nat} :
    FromAreas vs (st.protectArea r base stop prot v room).kept ∧
      FromAreas vs (st.protectArea r base stop prot v room).new := by
  unfold VmSt.protectArea
  dsimp only
  split_ifs
  · exact ⟨fromAreas_of_mem hv rfl rfl, fromAreas_nil⟩
  · exact ⟨fromAreas_of_mem hv rfl rfl, fromAreas_nil⟩
  · refine fromAreas_protectHead _ prot _ _ hv ?_ _
    exact fromAreas_of_mem hv rfl rfl
  · exact fromAreas_protectHead _ prot _ _ hv fromAreas_nil room

theorem fromAreas_protectLoop (st : VmSt) (r base stop prot : Nat) (vs : List VmArea) (room : Nat) :
    FromAreas vs ((protectLoop r base stop prot vs room st).2.2.1 ++
      (protectLoop r base stop prot vs room st).2.1) := by
  induction vs generalizing st room with
  | nil => exact fromAreas_nil
  | cons v vs ih =>
    obtain ⟨hkept, hnew⟩ := fromAreas_protectArea (mem_cons_self (a := v) (l := vs))
    unfold protectLoop
    dsimp only
    split
    · obtain ⟨hnew', hkept'⟩ := fromAreas_append.mp ((ih _ _).mono (subset_cons_self v _))
      simp only [fromAreas_append]
      exact ⟨⟨hnew', hnew⟩, hkept, hkept'⟩
    · simp only [fromAreas_append]
      exact ⟨hnew, hkept, (fromAreas_refl vs).mono (subset_cons_self v _)⟩

theorem quiet_mprotect {addr length prot room : Nat} :
    Quiet new st (st.mprotect u addr length prot room).1 := by
  unfold VmSt.mprotect
  split
  · exact .refl
  rename_i x hx
  split
  · exact .refl
  split
  · exact .refl
  dsimp only
  split
  · exact .refl
  have hfrom := fromAreas_protectLoop st x.realm (alignDown addr)
    ((alignDown addr + alignUp length) % 2 ^ 64) prot x.vmas room
  refine (Quiet.allows.protectLoop fun _ => quiet_remapPage).trans (hfrom.quiet ?_)
  rw [protectLoop_unit]
  exact hx

theorem fromAreas_updateArea {addr : Nat} {f : VmArea → List VmArea} (hf : ∀ v, FromAreas [v] (f v))
    {ws : List VmArea} (h : updateArea addr f vs = some ws) : FromAreas vs ws := by
  obtain ⟨pre, v, post, rfl, rfl, -⟩ := updateArea_some h
  obtain ⟨hpre, hrest⟩ := fromAreas_append.mp (fromAreas_refl (pre ++ v :: post))
  rw [fromAreas_append, fromAreas_append]
  exact ⟨hpre, (hf v).mono (by simp), (fromAreas_cons.mp hrest).2⟩

theorem fromAreas_growAreas (x : VmUnit) (addr : Nat) : FromAreas x.vmas (growAreas x addr) := by
  unfold growAreas
  split
  · rename_i ws hws
    refine fromAreas_updateArea (fun v => ?_) hws
    exact fromAreas_of_mem mem_cons_self rfl rfl
  · refine fromAreas_cons.mpr ⟨fun w hw o ho => ?_, fromAreas_refl _⟩
    rw [mem_singleton.mp hw] at ho
    cases ho

theorem fromAreas_shrinkAreas (x : VmUnit) (addr : Nat) : FromAreas x.vmas
    (shrinkAreas x addr) := by
  unfold shrinkAreas
  generalize hws : updateArea addr _ x.vmas = ws
  cases ws with
  | none => exact fromAreas_refl _
  | some ws =>
    refine fromAreas_updateArea (fun v => ?_) hws
    split
    · exact fromAreas_nil
    · exact fromAreas_of_mem mem_cons_self rfl rfl

theorem quiet_brk {addr : Nat} : Quiet new st (st.brk u addr).1 := by
  unfold VmSt.brk
  split
  · exact .refl
  rename_i x hx
  have hgrow : ∀ {n a}, Quiet new st (growLoop x.realm n a st).1 :=
    Quiet.allows.growLoop quiet_phys fun _ _ => quiet_mapOwn rfl
  dsimp only
  repeat' split
  all_goals try exact .refl
  · refine hgrow.trans ((fromAreas_growAreas x addr).quiet ?_)
    rw [growLoop_unit]
    exact hx
  · exact hgrow
  · refine (Quiet.allows.unmapRange quiet_unmapPage).trans
      ((fromAreas_shrinkAreas x addr).quiet ?_)
    rw [unmapRange_unit]
    exact hx

/-! ## The other steps -/

theorem quiet_createRealm : Quiet new st (st.createRealm r).1 := by
  unfold VmSt.createRealm
  split
  · exact .refl
  dsimp only
  split
  · exact quiet_phys
  refine .trans ?_ (quiet_mapOwn rfl)
  -- the new table has no entries
  refine .pages (fun l hl => .inl ?_) rfl rfl rfl rfl rfl rfl
  obtain ⟨r', p, e, he, hl⟩ := hl
  by_cases hr : r' = r
  · subst hr
    simp [leafAt, emptyTable] at he
  · have hold : (update st.space r _ r').bind (fun pt => pt.leaf p) = some e := he
    rw [update_of_ne hr] at hold
    exact ⟨r', p, e, hold, hl⟩

theorem quiet_createUnit {cfg : UnitSetup} : Quiet new st (st.createUnit u r cfg).1 := by
  refine Quiet.allows.createUnit (fun _ => quiet_mapOwn rfl) (fun _ => quiet_mapOwn rfl)
    fun hx => quiet_setUnit fun v hv => ?_
  rw [hx] at hv
  cases hv

/-! ## Modes -/

/-- A mapping has the mode of its object: shared, for a file with an inode number, or private and
the only one. -/
def InMode (inodeId : Nat) (excl : Nat → Option Nat) (l : Loan) : Prop :=
  (l.shared = true ∧ excl l.object = none ∧ inodeId ≠ 0) ∨
    (l.shared = false ∧ excl l.object = some l.mapping)

/-- An object of a file is shared by all its mappings, or belongs to the one private mapping that
`excl` names. A file has one object at a time. -/
structure Modes (st : VmSt) (excl : Nat → Option Nat) : Prop where
  loans : ∀ l node, st.Lent l → st.IsFile l.object node → InMode (st.node node).inodeId excl l
  areas : ∀ o node, st.HasArea o true → st.IsFile o node → excl o = none
  named : ∀ o node, st.IsFile o node → (st.node node).inodeId ≠ 0 → ∃ e ∈ st.fileTable, e.obj = o ∧
    e.mount = (st.node node).mount ∧ e.inodeId = (st.node node).inodeId
  entries : ∀ e ∈ st.fileTable, e.obj < st.nextObj ∧ e.inodeId ≠ 0 ∧
    ∀ n, st.IsFile e.obj n → e.inodeId = (st.node n).inodeId
  keys : st.fileTable.Pairwise fun e e' => ¬ (e.mount = e'.mount ∧ e.inodeId = e'.inodeId)

variable {excl excl' : Nat → Option Nat} {unit : Nat → Option VmUnit}

/-- A quiet change keeps the modes, if the new mappings have the mode of their object. -/
theorem Modes.quiet (h : st.Modes excl) (hquiet : Quiet new st st')
    (hnew : ∀ l node, new l → st.IsFile l.object node → InMode (st.node node).inodeId excl l) :
    st'.Modes excl where
  loans l node hl hfile := by
    rw [(hquiet.node node).2]
    rcases hquiet.lent l hl with hl | hl
    · exact h.loans l node hl (hquiet.file hfile)
    · exact hnew l node hl (hquiet.file hfile)
  areas o node ho hfile := by
    rcases hquiet.areas o true ho with ho | ⟨m, hm⟩
    · exact h.areas o node ho (hquiet.file hfile)
    · rcases hnew _ node hm (hquiet.file hfile) with ⟨-, hnone, -⟩ | ⟨hmode, -⟩
      · exact hnone
      · cases hmode
  named o node hfile hinode := by
    rw [(hquiet.node node).2] at hinode
    obtain ⟨e, he, rfl, hmount, hid⟩ := h.named o node (hquiet.file hfile) hinode
    refine ⟨e, hquiet.kept e he node hfile, rfl, ?_, ?_⟩
    · rw [(hquiet.node node).1]
      exact hmount
    · rw [(hquiet.node node).2]
      exact hid
  entries e he := by
    obtain ⟨hlt, hinode, hfile⟩ := h.entries e (hquiet.table.subset he)
    refine ⟨hlt.trans_le hquiet.next, hinode, fun n hf => ?_⟩
    rw [(hquiet.node n).2]
    exact hfile n (hquiet.file hf)
  keys := h.keys.sublist hquiet.table

/-- What pages show is a page of an object that is there. -/
theorem Lent.live (h : st.Sound unit) {l : Loan} (hl : st.Lent l) : l.object < st.nextObj := by
  obtain ⟨r, p, e, he, hloan⟩ := hl
  cases horigin : e.origin with
  | object m shared o i =>
    rw [horigin] at hloan
    cases hloan
    have hown := h.frames.lent r p e (.object o i) he (by rw [horigin]; rfl)
    obtain ⟨b, hb, -⟩ := Option.bind_eq_some_iff.mp hown
    exact (h.mapped.counted o b hb).2.2
  | _ =>
    rw [horigin] at hloan
    cases hloan

theorem HasArea.live (h : st.Sound st.unit) (ho : st.HasArea o shared) : o < st.nextObj := by
  obtain ⟨u, x, hx, v, hv, hback, -⟩ := ho
  exact ((h.mapped.area u x hx v hv).backing o hback).1

/-- The modes after a step, with the objects of before as they were. -/
structure ModesAfter (excl : Nat → Option Nat) (st st' : VmSt) (excl' : Nat → Option Nat) : Prop where
  modes : st'.Modes excl'
  same : ∀ o, o < st.nextObj → excl' o = excl o
  node : ∀ n, (st'.node n).mount = (st.node n).mount ∧ (st'.node n).inodeId = (st.node n).inodeId
  next : st.nextObj ≤ st'.nextObj
  kind : ∀ o b', st'.obj o = some b' → o < st.nextObj → ∃ b, st.obj o = some b ∧ b'.kind = b.kind

theorem ModesAfter.quiet (h : ModesAfter excl st st' excl') (hquiet : Quiet new st' st'')
    (hnew : ∀ l node, new l → st'.IsFile l.object node → InMode (st'.node node).inodeId excl' l) :
    ModesAfter excl st st'' excl' where
  modes := h.modes.quiet hquiet hnew
  same := h.same
  node n := ⟨(hquiet.node n).1.trans (h.node n).1, (hquiet.node n).2.trans (h.node n).2⟩
  next := h.next.trans hquiet.next
  kind o b'' hb'' hlt := by
    rcases hquiet.kind o b'' hb'' with ⟨b', hb', hsame'⟩ | ⟨hnew, -⟩
    · obtain ⟨b, hb, hsame⟩ := h.kind o b' hb' hlt
      exact ⟨b, hb, hsame'.trans hsame⟩
    · have := h.next
      omega

theorem Modes.after (h : st.Modes excl) : ModesAfter excl st st excl :=
  ⟨h, fun _ _ => rfl, fun _ => ⟨rfl, rfl⟩, le_rfl, fun _ b hb _ => ⟨b, hb, rfl⟩⟩

/-- A step that makes no mapping of an object. -/
theorem Modes.after_quiet (h : st.Modes excl) (hquiet : Quiet (fun _ => False) st st') :
    ModesAfter excl st st' excl :=
  h.after.quiet hquiet fun _ _ hnew => hnew.elim

/-! ## mmap of a file -/

/-- Some unit has a shared area for the object. -/
def SharedArea (st : VmSt) (o : Nat) : Prop :=
  ∃ w, w < maxUnits ∧ ∃ x ∈ st.unit w, ∃ v ∈ x.vmas, v.backing = some o ∧ mapShared v.flags = true

instance (st : VmSt) (o : Nat) : Decidable (st.SharedArea o) := by
  unfold SharedArea
  infer_instance

theorem SharedArea.hasArea (h : st.SharedArea o) : st.HasArea o true := by
  obtain ⟨w, -, x, hx, v, hv, hback, hmode⟩ := h
  exact ⟨w, x, hx, v, hv, hback, hmode⟩

/-- The entry of a file's object in the table. -/
def tableEntry (st : VmSt) (node : Nat) : Option FileTableEntry :=
  st.fileTable.find? fun e => e.mount = (st.node node).mount ∧ e.inodeId = (st.node node).inodeId

/-- A file may be mapped: shared mappings have an inode to meet at, and a file that has an object
already is shared with others who share it. -/
def FileModest (st : VmSt) (node : Nat) (shared : Bool) : Prop :=
  (shared = true → (st.node node).inodeId ≠ 0) ∧
    ((st.node node).inodeId ≠ 0 → ∀ e ∈ st.tableEntry node, shared = true ∧ st.SharedArea e.obj)

instance (st : VmSt) (node : Nat) (shared : Bool) : Decidable (st.FileModest node shared) := by
  unfold FileModest
  infer_instance

/-- A new object of a file is in the mode of the mapping that it is made for. -/
theorem newFileObject_modes (h : st.Modes excl) (hsound : st.Sound st.unit) (m : Nat)
    (hinode : shared → (st.node node).inodeId ≠ 0) {table : List FileTableEntry}
    (htable : ((st.node node).inodeId = 0 ∧ table = st.fileTable) ∨
      ((st.node node).inodeId ≠ 0 ∧ st.tableEntry node = none ∧
        table = ⟨(st.node node).mount, (st.node node).inodeId, st.nextObj⟩ :: st.fileTable)) :
    ∃ excl', ModesAfter excl st { (st.newFileObject node).1 with fileTable := table } excl' ∧
      ∀ n, ({ (st.newFileObject node).1 with fileTable := table } : VmSt).IsFile st.nextObj n →
        InMode (st.node n).inodeId excl' ⟨m, shared, st.nextObj⟩ := by
  have hfile : ∀ o n, ({ (st.newFileObject node).1 with fileTable := table } : VmSt).IsFile o n →
      (o = st.nextObj ∧ n = node) ∨ (o ≠ st.nextObj ∧ st.IsFile o n) := by
    rintro o n ⟨b, hb, hkind⟩
    rcases update_eq_some hb with ⟨rfl, ⟨⟩⟩ | ⟨ho, hold⟩
    · exact .inl ⟨rfl, (BackingKind.file.inj hkind).symm⟩
    · exact .inr ⟨ho, b, hold, hkind⟩
  refine ⟨update excl st.nextObj (if shared then none else some m),
    ⟨⟨fun l n hl hf => ?_, fun o n ho hf => ?_, fun o n hf hinode => ?_, fun e he => ?_, ?_⟩,
      fun o ho => ?_, fun _ => ⟨rfl, rfl⟩, Nat.le_succ _, fun o b hb ho => ?_⟩, fun n hf => ?_⟩
  · -- nothing shows the new object yet
    have hlive := Lent.live hsound (show st.Lent l from hl)
    rcases hfile _ n hf with ⟨heq, -⟩ | ⟨hne, hf⟩
    · omega
    · unfold InMode
      rw [update_of_ne hne]
      exact h.loans l n hl hf
  · have hlive := HasArea.live hsound (show st.HasArea o true from ho)
    rcases hfile _ n hf with ⟨heq, -⟩ | ⟨hne, hf⟩
    · omega
    · rw [update_of_ne hne]
      exact h.areas o n ho hf
  · rcases hfile _ n hf with ⟨rfl, rfl⟩ | ⟨-, hf⟩
    · rcases htable with ⟨hzero, -⟩ | ⟨-, -, rfl⟩
      · exact absurd hzero hinode
      · exact ⟨_, mem_cons_self, rfl, rfl, rfl⟩
    obtain ⟨e, he, hrest⟩ := h.named o n hf hinode
    refine ⟨e, ?_, hrest⟩
    rcases htable with ⟨-, rfl⟩ | ⟨-, -, rfl⟩
    · exact he
    · exact mem_cons_of_mem _ he
  · -- the entries of before are for other objects
    have hold : e ∈ st.fileTable → e.obj < st.nextObj + 1 ∧ e.inodeId ≠ 0 ∧
        ∀ n, ({ (st.newFileObject node).1 with fileTable := table } : VmSt).IsFile e.obj n →
          e.inodeId = (st.node n).inodeId := by
      intro he
      obtain ⟨hlt, hne, hids⟩ := h.entries e he
      refine ⟨by omega, hne, fun n hf => ?_⟩
      rcases hfile _ n hf with ⟨heq, -⟩ | ⟨-, hf⟩
      · omega
      · exact hids n hf
    rcases htable with ⟨-, rfl⟩ | ⟨hne, -, rfl⟩
    · exact hold he
    rcases mem_cons.mp he with rfl | he
    · refine ⟨Nat.lt_succ_self _, hne, fun n hf => ?_⟩
      rcases hfile _ n hf with ⟨-, rfl⟩ | ⟨habs, -⟩
      · rfl
      · exact absurd rfl habs
    · exact hold he
  · rcases htable with ⟨-, rfl⟩ | ⟨-, hnone, rfl⟩
    · exact h.keys
    refine pairwise_cons.mpr ⟨fun e he hkey => ?_, h.keys⟩
    have := find?_eq_none.mp hnone e he
    simp only [decide_eq_true_eq] at this
    exact this ⟨hkey.1.symm, hkey.2.symm⟩
  · rw [update_of_ne (by omega)]
  · have hne : o ≠ st.nextObj := by omega
    simp only [newFileObject, setObj, update_of_ne hne] at hb
    exact ⟨b, hb, rfl⟩
  rcases hfile _ n hf with ⟨-, rfl⟩ | ⟨habs, -⟩
  · cases shared with
    | true => exact .inl ⟨rfl, by simp, hinode rfl⟩
    | false => exact .inr ⟨rfl, by simp⟩
  · exact absurd rfl habs

/-- `get_or_create` finds an object in the mode of the mapping. -/
theorem getOrCreate_modes (h : st.Modes excl) (hsound : st.Sound st.unit) {m : Nat}
    (hmodest : st.FileModest node shared) :
    ∃ excl', ModesAfter excl st (st.getOrCreate node).1 excl' ∧ ∀ o,
    (st.getOrCreate node).2 = some o → ∀ n, (st.getOrCreate node).1.IsFile o n → InMode
      (st.node n).inodeId excl' ⟨m, shared, o⟩ := by
  unfold VmSt.getOrCreate
  dsimp only
  split
  · rename_i hzero
    obtain ⟨excl', hafter, hmode⟩ := newFileObject_modes h hsound m hmodest.1 (.inl ⟨hzero, rfl⟩)
    refine ⟨excl', hafter, fun o ho n hf => ?_⟩
    cases ho
    exact hmode n hf
  rename_i hinode
  split
  · -- the object is there: it is shared, and so is the mapping
    rename_i e hentry
    obtain ⟨rfl, harea⟩ := hmodest.2 hinode e hentry
    refine ⟨excl, h.after, fun o ho n hf => ?_⟩
    cases ho
    obtain ⟨-, hne, hids⟩ := h.entries e (mem_of_find?_eq_some hentry)
    exact .inl ⟨rfl, h.areas _ n harea.hasArea hf, hids n hf ▸ hne⟩
  rename_i hnone
  split
  · exact ⟨excl, h.after, fun o ho => by cases ho⟩
  obtain ⟨excl', hafter, hmode⟩ := newFileObject_modes h hsound m hmodest.1
    (.inr ⟨hinode, hnone, rfl⟩)
  refine ⟨excl', hafter, fun o ho n hf => ?_⟩
  cases ho
  exact hmode n hf

/-- The object is not one of a file. -/
def NotFile (st : VmSt) (o : Nat) : Prop := ∀ b ∈ st.obj o, b.kind = .shm ∨ b.kind = .device

instance (st : VmSt) (o : Nat) : Decidable (st.NotFile o) := by
  unfold NotFile
  infer_instance

theorem NotFile.not_isFile (h : st.NotFile o) : ¬ st.IsFile o node := by
  rintro ⟨b, hb, hkind⟩
  rcases h b hb with hk | hk <;> rw [hk] at hkind <;> cases hkind

/-- What is behind a handle may be mapped. -/
def HandleModest (st : VmSt) (he : HandleEntry (Option Nat)) (offset : Nat) (shared : Bool) : Prop :=
  match he.type, he.resource with
  | .shm, some o => st.NotFile o
  | .file, some node => st.FileModest node shared
  | .device, some d => ∀ o ∈ st.deviceObject d offset, st.NotFile o
  | _, _ => True

instance (st : VmSt) (he : HandleEntry (Option Nat)) (offset : Nat) (shared : Bool) :
    Decidable (st.HandleModest he offset shared) := by
  unfold HandleModest
  split <;> infer_instance

theorem handleObject_modes (h : st.Modes excl) (hsound : st.Sound st.unit)
    {he : HandleEntry (Option Nat)} (m : Nat) (hmodest : st.HandleModest he offset shared) :
    ∃ excl', ModesAfter excl st (st.handleObject he offset).1 excl' ∧
      ∀ o, (st.handleObject he offset).2 = some o → ∀ n, (st.handleObject he offset).1.IsFile o n →
        InMode (st.node n).inodeId excl' ⟨m, shared, o⟩ := by
  unfold VmSt.handleObject
  split
  · rename_i o htype hres
    have hnot : st.NotFile o := by simpa only [HandleModest, htype, hres] using hmodest
    refine ⟨excl, h.after, fun o' ho n hf => ?_⟩
    cases ho
    exact absurd hf hnot.not_isFile
  · rename_i node htype hres
    have hfile : st.FileModest node shared := by simpa only [HandleModest, htype, hres] using hmodest
    exact getOrCreate_modes h hsound hfile
  · rename_i d htype hres
    have hnot : ∀ o ∈ st.deviceObject d offset, st.NotFile o := by
      simpa only [HandleModest, htype, hres] using hmodest
    exact ⟨excl, h.after, fun o ho n hf => absurd hf ((hnot o ho).not_isFile)⟩
  · exact ⟨excl, h.after, fun o ho => by cases ho⟩

theorem handleObject_mappings (st : VmSt) (he : HandleEntry (Option Nat)) (offset : Nat) :
    (st.handleObject he offset).1.mappings = st.mappings ∧
      (st.handleObject he offset).1.content = st.content := by
  unfold VmSt.handleObject VmSt.getOrCreate
  dsimp only
  repeat' split
  all_goals exact ⟨rfl, rfl⟩

theorem addMapping_mappings (st : VmSt) (o : Nat) : (st.addMapping o).mappings = st.mappings := by
  unfold VmSt.addMapping
  split <;> rfl

theorem resolveBacking_modes (h : st.Modes excl) (hsound : st.Sound st.unit) {realm : Nat}
    {handle : UInt64} (length : Nat)
    (hmodest : ∀ he ∈ (st.handles realm).lookup handle, st.HandleModest he offset shared) :
    (st.resolveBacking realm handle length offset).1.content = st.content ∧
    (st.resolveBacking realm handle length offset).1.mappings = st.mappings ∧
    ∃ excl', ModesAfter excl st (st.resolveBacking realm handle length offset).1 excl' ∧
      ∀ o off, (st.resolveBacking realm handle length offset).2 = .ok (o, off) →
        ∀ n, (st.resolveBacking realm handle length offset).1.IsFile o n →
          InMode (st.node n).inodeId excl' ⟨st.mappings, shared, o⟩ := by
  unfold VmSt.resolveBacking
  split
  · exact ⟨rfl, rfl, excl, h.after, fun o off ho => by cases ho⟩
  rename_i he hlookup
  obtain ⟨excl', hafter, hmode⟩ := handleObject_modes h hsound st.mappings (hmodest he hlookup)
  obtain ⟨hmappings, hcontent⟩ := handleObject_mappings st he offset
  dsimp only
  split
  · exact ⟨hcontent, hmappings, excl', hafter, fun o off ho => by cases ho⟩
  rename_i o b hob
  obtain ⟨o', ho', hb⟩ := Option.bind_eq_some_iff.mp hob
  obtain ⟨b', hb', heq⟩ := Option.map_eq_some_iff.mp hb
  cases heq
  generalize (if he.type = .device then length else (offset + length) % 2 ^ 64) = need
  generalize (if he.type = .device then 0 else offset) = start
  split
  · exact ⟨hcontent, hmappings, excl', hafter, fun o off ho => by cases ho⟩
  have hquiet : Quiet (fun _ => False) (st.handleObject he offset).1 _ :=
    Quiet.allows.addMapping (o := o)
  refine ⟨hquiet.content.trans hcontent, (addMapping_mappings _ o).trans hmappings, excl',
    hafter.quiet hquiet fun _ _ hnew => hnew.elim, fun o'' off ho n hf => ?_⟩
  cases ho
  exact hmode o ho' n (hquiet.file hf)

/-- The mapping that a source is mapped by. -/
def Source.loan (m : Nat) (shared : Bool) : Source → Option Loan
  | .anonymous => none
  | .object o _ => some ⟨m, shared, o⟩

theorem sourcePage_mappings : (st.sourcePage i src).1.mappings = st.mappings := by
  cases src with
  | anonymous => rfl
  | object o offset =>
    unfold VmSt.sourcePage VmSt.getPage
    dsimp only
    repeat' split
    all_goals rfl

theorem mapPage_mappings {pa : Nat} {writable present : Bool} {origin : Origin} :
    (st.mapPage r va pa writable present origin).mappings = st.mappings := by
  unfold VmSt.mapPage
  split <;> rfl

theorem loan_sourceOrigin : (st.sourceOrigin shared i src).loan = src.loan st.mappings shared := by
  cases src <;> rfl

theorem quiet_mmapLoop {base : Nat} {writable : Bool}
    (hnew : ∀ l, src.loan st.mappings shared = some l → new l) :
    Quiet new st (mmapLoop r base writable shared src n i st).1 := by
  induction n generalizing st i with
  | zero => exact .refl
  | succ n ih =>
    rw [mmapLoop]
    have hpage : Quiet new st (st.sourcePage i src).1 := Quiet.allows.sourcePage quiet_phys
    split
    · exact hpage.trans (Quiet.allows.unmapPages quiet_unmapPage)
    refine hpage.trans (.trans (quiet_mapPage fun l hl => .inr ?_) (ih ?_))
    · rw [loan_sourceOrigin, sourcePage_mappings] at hl
      exact hnew l hl
    · rw [mapPage_mappings, sourcePage_mappings]
      exact hnew

theorem quiet_mmapAt {x : VmUnit} (hx : st.unit u = some x)
    {base length prot : Nat} {flags : Nat} {handle : UInt64}
    (hnew : ∀ l, src.loan st.mappings (mapShared flags) = some l → new l) {vmaOk : Bool} :
    Quiet new st (st.mmapAt u x base length prot flags handle offset src vmaOk).1 := by
  unfold VmSt.mmapAt
  dsimp only
  split
  · split
    · refine (quiet_mmapLoop hnew).trans (.trans (quiet_setUnit fun v hv o ho => ?_)
        (.same rfl rfl rfl rfl rfl rfl rfl))
      rcases mem_cons.mp hv with rfl | hv
      · -- the area of the new mapping
        refine .inr ⟨st.mappings, hnew _ ?_⟩
        cases src with
        | anonymous => cases ho
        | object o' offset' =>
          cases ho
          rfl
      · refine .inl ⟨u, x, ?_, v, hv, ho, rfl⟩
        rw [mmapLoop_unit]
        exact hx
    · exact ((quiet_mmapLoop hnew).trans (Quiet.allows.unmapPages quiet_unmapPage)).trans
        Quiet.allows.dropBacking
  · exact (quiet_mmapLoop hnew).trans Quiet.allows.dropBacking

theorem mmap_modes (h : st.Modes excl) (hsound : st.Sound st.unit) {flags : Nat} {handle : UInt64}
    (addr length prot : Nat) (hmodest : mapAnonymous flags ∨ ∀ x ∈ st.unit u,
      ∀ he ∈ (st.handles x.realm).lookup handle, st.HandleModest he offset (mapShared flags))
    (vmaOk : Bool) : (st.mmap u addr length prot flags handle offset vmaOk).1.content = st.content ∧
    ∃ excl', ModesAfter excl st (st.mmap u addr length prot flags handle offset vmaOk).1 excl' := by
  unfold VmSt.mmap
  split
  · exact ⟨rfl, excl, h.after⟩
  split
  · exact ⟨rfl, excl, h.after⟩
  rename_i x hx
  split
  · exact ⟨rfl, excl, h.after⟩
  dsimp only
  generalize (if alignDown addr ≠ 0 then some (alignDown addr)
    else findFreeRange x.vmas (alignUp length) (x.vmas.length + 1) mmapBase) = base
  cases base with
  | none => exact ⟨rfl, excl, h.after⟩
  | some base =>
    dsimp only
    split
    · exact ⟨rfl, excl, h.after⟩
    split
    · have hquiet : Quiet (fun _ => False) st
          (st.mmapAt u x base (alignUp length) prot flags handle offset .anonymous vmaOk).1 :=
        quiet_mmapAt hx (fun l hl => by cases hl)
      exact ⟨hquiet.content, excl, h.after_quiet hquiet⟩
    rename_i hnot
    obtain ⟨hcontent, hmappings, excl', hafter, hmode⟩ := resolveBacking_modes h hsound
      (alignUp length) (hmodest.resolve_left hnot x hx)
    have hunit := resolveBacking_unit st x.realm handle (alignUp length) offset
    generalize st.resolveBacking x.realm handle (alignUp length) offset = y at *
    obtain ⟨st1, res⟩ := y
    cases res with
    | error e => exact ⟨hcontent, excl', hafter⟩
    | ok y =>
      obtain ⟨o, off⟩ := y
      have hx1 : st1.unit u = some x := by rw [hunit]; exact hx
      have hquiet : Quiet (fun l => l = ⟨st.mappings, mapShared flags, o⟩) st1
          (st1.mmapAt u x base (alignUp length) prot flags handle offset (.object o off) vmaOk).1 := by
        refine quiet_mmapAt hx1 (fun l hl => ?_)
        rw [hmappings] at hl
        exact (Option.some.inj hl).symm
      refine ⟨hquiet.content.trans hcontent, excl', hafter.quiet hquiet fun l n hl hf => ?_⟩
      subst hl
      rw [(hafter.node n).2]
      exact hmode o off rfl n hf

/-! ## Steps -/

/-- What a step must keep to, so that mappings have the mode that they were asked for. -/
def Modest (st : VmSt) : VmAction → Prop
  | .mmap u _ _ _ flags handle offset _ => mapAnonymous flags = true ∨ ∀ x ∈ st.unit u,
      ∀ he ∈ (st.handles x.realm).lookup handle, st.HandleModest he offset (mapShared flags)
  | _ => True

instance (st : VmSt) : (a : VmAction) → Decidable (st.Modest a)
  | .createRealm _ | .createUnit .. | .addHandle .. | .closeHandle .. | .shmCreate .. | .shmUnlink ..
  | .shmTruncate .. | .mmap .. | .brk .. | .munmap .. | .mprotect .. | .store .. | .writeNode ..
  | .exitUnit _ | .exitRealm _ | .kernelTake .. | .kernelGive .. | .kernelStore .. => by
    unfold Modest
    infer_instance

/-- A step that neither maps an object nor writes a file. -/
theorem step_quiet (hsound : st.Sound st.unit) {a : VmAction} (ha : st.Tame a)
    (hmap : ∀ u addr length prot flags handle offset vmaOk,
      a ≠ .mmap u addr length prot flags handle offset vmaOk)
    (hwrite : ∀ node offset data size, a ≠ .writeNode node offset data size) :
    Quiet new st (vmStep st a).1 := by
  cases a with
  | createRealm r => exact quiet_createRealm
  | createUnit u r cfg => exact quiet_createUnit
  | addHandle r hid type resource => exact Quiet.allows.addHandle
  | closeHandle r hid => exact Quiet.allows.closeHandle
  | shmCreate r hid => exact Quiet.allows.shmCreate
  | shmUnlink o => exact Quiet.allows.markUnlinked
  | shmTruncate r hid length ok => exact Quiet.allows.shmTruncate
  | mmap u addr length prot flags handle offset vmaOk => exact absurd rfl (hmap _ _ _ _ _ _ _ _)
  | brk u addr => exact quiet_brk
  | munmap u addr length vmaOk => exact quiet_munmap
  | mprotect u addr length prot room => exact quiet_mprotect
  | store u va b =>
    simp only [vmStep]
    cases st.unit u with
    | none => exact .refl
    | some x => exact quiet_store
  | writeNode node offset data size => exact absurd rfl (hwrite _ _ _ _)
  | exitUnit u =>
    simp only [vmStep, releaseResources]
    rw [show st.unit u = none from ha]
    exact .refl
  | exitRealm r =>
    simp only [vmStep]
    rw [destroyRealm_none hsound ha]
    exact Quiet.allows.clearHandles
  | kernelTake n => exact Quiet.allows.kernelTake
  | kernelGive f => exact Quiet.allows.kernelGive
  | kernelStore f off b => exact Quiet.allows.kernelStore

/-- A file write changes the size that a node has, not the file that it stands for. -/
theorem writeNode_node (st : VmSt) (node offset : Nat) (data : List UInt8) (size n : Nat) :
    ((st.writeNode node offset data size).node n).mount = (st.node n).mount ∧
      ((st.writeNode node offset data size).node n).inodeId = (st.node n).inodeId := by
  unfold VmSt.writeNode
  dsimp only
  by_cases hn : n = node
  · subst hn
    rw [update_self]
    exact ⟨rfl, rfl⟩
  · rw [update_of_ne hn]
    exact ⟨rfl, rfl⟩

theorem writeNode_modes (h : st.Modes excl) {data : List UInt8} {size : Nat} :
    ModesAfter excl st (st.writeNode node offset data size) excl := by
  have hids := writeNode_node st node offset data size
  refine ⟨⟨fun l n hl hf => ?_, h.areas, fun o n hf hinode => ?_, fun e he => ?_, h.keys⟩,
    fun _ _ => rfl, hids, le_rfl, fun _ b hb _ => ⟨b, hb, rfl⟩⟩
  · rw [(hids n).2]
    exact h.loans l n hl hf
  · rw [(hids n).2] at hinode
    obtain ⟨e, he, ho, hmount, hid⟩ := h.named o n hf hinode
    exact ⟨e, he, ho, hmount.trans (hids n).1.symm, hid.trans (hids n).2.symm⟩
  obtain ⟨hlt, hne, hfile⟩ := h.entries e he
  refine ⟨hlt, hne, fun n hf => ?_⟩
  rw [(hids n).2]
  exact hfile n hf

theorem step_modes (h : st.Modes excl) (hsound : st.Sound st.unit) {a : VmAction} (ha : st.Tame a)
    (hmodest : st.Modest a) : ∃ excl', ModesAfter excl st (vmStep st a).1 excl' := by
  cases a with
  | mmap u addr length prot flags handle offset vmaOk =>
    exact (mmap_modes h hsound addr length prot hmodest vmaOk).2
  | writeNode node offset data size => exact ⟨excl, writeNode_modes h⟩
  | _ => exact ⟨excl, h.after_quiet (step_quiet hsound ha nofun nofun)⟩

/-- Files change by file writes only. -/
theorem step_content (h : st.Modes excl) (hsound : st.Sound st.unit) {a : VmAction} (ha : st.Tame a)
    (hmodest : st.Modest a)
    (hwrite : ∀ node offset data size, a ≠ .writeNode node offset data size) :
    (vmStep st a).1.content = st.content := by
  cases a with
  | mmap u addr length prot flags handle offset vmaOk =>
    exact (mmap_modes h hsound addr length prot hmodest vmaOk).1
  | writeNode node offset data size => exact absurd rfl (hwrite _ _ _ _)
  | _ =>
    have hquiet : Quiet (fun _ => False) st (vmStep st _).1 := step_quiet hsound ha nofun nofun
    exact hquiet.content

/-! ## Runs -/

/-- The condition on the steps of a run. -/
def Civil (st : VmSt) (a : VmAction) : Prop := st.Careful a ∧ st.Modest a

instance (st : VmSt) (a : VmAction) : Decidable (st.Civil a) := inferInstanceAs (Decidable (_ ∧ _))

/-- Frames and areas are in order, and mappings have the mode of their object. -/
structure Ordered (st : VmSt) (excl : Nat → Option Nat) : Prop where
  tidy : st.Tidy
  sound : st.Sound st.unit
  modes : st.Modes excl

theorem ModesAfter.trans {excl'' : Nat → Option Nat} (h : ModesAfter excl st st' excl')
    (h' : ModesAfter excl' st' st'' excl'') : ModesAfter excl st st'' excl'' where
  modes := h'.modes
  same o ho := (h'.same o (ho.trans_le h.next)).trans (h.same o ho)
  node n := ⟨(h'.node n).1.trans (h.node n).1, (h'.node n).2.trans (h.node n).2⟩
  next := h.next.trans h'.next
  kind o b'' hb'' hlt := by
    obtain ⟨b', hb', hsame'⟩ := h'.kind o b'' hb'' (hlt.trans_le h.next)
    obtain ⟨b, hb, hsame⟩ := h.kind o b' hb' hlt
    exact ⟨b, hb, hsame'.trans hsame⟩

theorem step_ordered (h : st.Ordered excl) {a : VmAction} (ha : st.Civil a) :
    ∃ excl', (vmStep st a).1.Ordered excl' ∧ ModesAfter excl st (vmStep st a).1 excl' := by
  obtain ⟨⟨hfits, htame⟩, hmodest⟩ := ha
  obtain ⟨excl', hafter⟩ := step_modes h.modes h.sound htame hmodest
  exact ⟨excl', ⟨step_tidy h.tidy hfits, step_sound h.sound h.tidy hfits htame, hafter.modes⟩, hafter⟩

theorem run_ordered (h : st.Ordered excl) {as : List VmAction} (has : Along vmStep Civil st as) :
    ∃ excl', (final vmStep st as).Ordered excl' ∧
      ModesAfter excl st (final vmStep st as) excl' := by
  induction as generalizing st excl with
  | nil => exact ⟨excl, h, h.modes.after⟩
  | cons a as ih =>
    obtain ⟨excl1, hone, hafter⟩ := step_ordered h has.1
    obtain ⟨excl2, hrest, hafter'⟩ := ih hone has.2
    exact ⟨excl2, hrest, hafter.trans hafter'⟩

/-- Nodes that stand for a file go on to do so. -/
theorem ModesAfter.fileOf (h : ModesAfter excl st st' excl') (n : Nat) :
    st'.fileOf n = st.fileOf n := by
  unfold VmSt.fileOf
  rw [(h.node n).1, (h.node n).2]

/-- A unit can store at an address, through a page of an object. -/
def StoresTo (st : VmSt) (u va m : Nat) (shared : Bool) (o i : Nat) : Prop :=
  ∃ x e, st.unit u = some x ∧ st.userEntry x.realm va = some e ∧ e.writable = true ∧
    e.origin = .object m shared o i

/-- The step writes this byte of a file, or makes the file long enough to have it. -/
def WritesByte (st : VmSt) (file : FileId) (k : Nat) : VmAction → Prop
  | .writeNode node offset data _ => st.fileOf node = file ∧ k < offset + data.length ∧
      (offset ≤ k ∨ (st.content file)[k]? = none)
  | _ => False

/-- Mappings of files keep their mode in a run: what is stored through a private mapping is in a page
that only this mapping shows, files change by file writes only, what is stored through a shared mapping
is what all shared mappings of that page of the file load, these read the same at all times, and until
the file is written there, it has the stored byte only if it had it before. -/
structure SharingKept (st : VmSt) (as : List VmAction) : Prop where
  private_unseen : ∀ pre u va b post, as = pre ++ .store u va b :: post → ∀ m o i node,
    (final vmStep st pre).StoresTo u va m false o i → (final vmStep st pre).IsFile o node →
    ∀ r p e, (final vmStep st as).leafAt r p = some e → e.present = true →
      pageAt ((final vmStep st as).obj o) i = some e.frame → e.origin = .object m false o i
  read_unchanged : ∀ pre a post, as = pre ++ a :: post →
    (∀ node offset data size, a ≠ .writeNode node offset data size) →
    (final vmStep st (pre ++ [a])).content = (final vmStep st pre).content
  shared_seen : ∀ pre u va b post, as = pre ++ .store u va b :: post → ∀ m o i node,
    (final vmStep st pre).StoresTo u va m true o i → (final vmStep st pre).IsFile o node →
    ∀ r va' e m' o' node', (final vmStep st (pre ++ [.store u va b])).userEntry r va' = some e →
    e.origin = .object m' true o' i → (final vmStep st (pre ++ [.store u va b])).IsFile o' node' →
    (final vmStep st pre).fileOf node' = (final vmStep st pre).fileOf node →
    va' % pageSize = va % pageSize →
    (final vmStep st (pre ++ [.store u va b])).load r va' = some b
  shared_same : ∀ r va r' va' e e' m m' o o' i node node',
    (final vmStep st as).userEntry r va = some e → e.origin = .object m true o i →
    (final vmStep st as).userEntry r' va' = some e' → e'.origin = .object m' true o' i →
    (final vmStep st as).IsFile o node → (final vmStep st as).IsFile o' node' →
    (final vmStep st as).fileOf node = (final vmStep st as).fileOf node' →
    va % pageSize = va' % pageSize →
    (final vmStep st as).load r va = (final vmStep st as).load r' va'
  shared_read : ∀ pre u va b post, as = pre ++ .store u va b :: post → ∀ m o i node,
    (final vmStep st pre).StoresTo u va m true o i → (final vmStep st pre).IsFile o node →
    (∀ a ∈ post, ¬ (final vmStep st pre).WritesByte ((final vmStep st pre).fileOf node)
      (i * pageSize + va % pageSize) a) →
    (((final vmStep st as).content ((final vmStep st pre).fileOf node))[i * pageSize +
        va % pageSize]? = some b ↔
      ((final vmStep st pre).content ((final vmStep st pre).fileOf node))[i * pageSize +
        va % pageSize]? = some b)

/-- A page that shows the frame of an object's page does so as a page of that object. -/
theorem Ordered.origin_of_frame (h : st.Ordered excl) {p : Nat} {e : Pte}
    (he : st.leafAt r p = some e) (hframe : pageAt (st.obj o) i = some e.frame) :
    ∃ m shared, e.origin = .object m shared o i := by
  have hown : st.ownerAt (.object o i) = some e.frame := hframe
  cases hl : e.origin.lender with
  | none =>
    have := h.sound.frames.unique _ _ _ (ownerAt_leaf.mpr ⟨e, he, hl, rfl⟩) hown
    cases this
  | some s =>
    have hs := h.sound.frames.unique _ _ _ (h.sound.frames.lent r p e s he hl) hown
    subst hs
    cases horigin : e.origin with
    | object m shared o' i' =>
      rw [horigin] at hl
      cases hl
      exact ⟨m, shared, rfl⟩
    | _ =>
      rw [horigin] at hl
      cases hl

theorem userEntry_leafAt {e : Pte} (h : st.userEntry r va = some e) :
    st.leafAt r (pageOf va) = some e := by
  obtain ⟨pt, hpt, hentry, -⟩ := userEntry_some h
  rw [leafAt, hpt]
  exact PageTable.leaf_of_entry hentry

/-- The mode of an object that a file has belongs to the mapping that shows it. -/
theorem Ordered.inMode (h : st.Ordered excl) {m : Nat} {e : Pte}
    (he : st.userEntry r va = some e) (horigin : e.origin = .object m shared o i)
    (hfile : st.IsFile o node) : InMode (st.node node).inodeId excl ⟨m, shared, o⟩ :=
  h.modes.loans ⟨m, shared, o⟩ node ⟨r, pageOf va, e, userEntry_leafAt he, by rw [horigin]; rfl⟩ hfile

/-- What was stored through a private mapping stays where only that mapping sees it. -/
theorem private_kept (h : st.Ordered excl) {as : List VmAction} (has : Along vmStep Civil st as)
    {m : Nat} (hstore : st.StoresTo u va m false o i) (hfile : st.IsFile o node)
    {p : Nat} {e : Pte} (he : (final vmStep st as).leafAt r p = some e)
    (hframe : pageAt ((final vmStep st as).obj o) i = some e.frame) :
    e.origin = .object m false o i := by
  obtain ⟨excl', hend, hafter⟩ := run_ordered h has
  obtain ⟨x, e0, -, he0, -, horigin0⟩ := hstore
  have hexcl : excl o = some m := by
    rcases h.inMode he0 horigin0 hfile with ⟨hmode, -⟩ | ⟨-, hexcl⟩
    · cases hmode
    · exact hexcl
  have hlive : o < st.nextObj :=
    Lent.live h.sound ⟨_, _, e0, userEntry_leafAt he0, by rw [horigin0]; rfl⟩
  obtain ⟨m', shared, horigin⟩ := hend.origin_of_frame he hframe
  -- the object is still that of the file: objects do not change their kind
  have hfile' : (final vmStep st as).IsFile o node := by
    obtain ⟨b', hb', -⟩ := Option.bind_eq_some_iff.mp hframe
    obtain ⟨b, hb, hsame⟩ := hafter.kind o b' hb' hlive
    obtain ⟨b0, hb0, hkind⟩ := hfile
    rw [hb, Option.some.injEq] at hb0
    exact ⟨b', hb', by rw [hsame, hb0, hkind]⟩
  have hloan := hend.modes.loans ⟨m', shared, o⟩ node ⟨r, p, e, he, by rw [horigin]; rfl⟩ hfile'
  have hexcl' : excl' o = some m := (hafter.same o hlive).trans hexcl
  rcases hloan with ⟨-, hnone, -⟩ | ⟨hmode, hmapping⟩
  · rw [hexcl'] at hnone
    cases hnone
  · cases hmode
    rw [hexcl', Option.some.injEq] at hmapping
    rw [horigin, hmapping]

/-- A file that is shared has one object. -/
theorem Modes.object_unique (h : st.Modes excl) {o' node' : Nat} (ho : st.IsFile o node)
    (ho' : st.IsFile o' node') (hinode : (st.node node).inodeId ≠ 0)
    (hsame : st.fileOf node = st.fileOf node') : o = o' := by
  unfold VmSt.fileOf at hsame
  rw [if_neg hinode] at hsame
  split_ifs at hsame with hinode'
  obtain ⟨hmount, hid⟩ := FileId.inode.inj hsame
  obtain ⟨e, he, rfl, hm, hi⟩ := h.named o node ho hinode
  obtain ⟨e', he', rfl, hm', hi'⟩ := h.named o' node' ho' hinode'
  by_contra hne
  have hee : e ≠ e' := fun heq => hne (by rw [heq])
  have hsymm : Std.Symm fun e e' : FileTableEntry =>
      ¬ (e.mount = e'.mount ∧ e.inodeId = e'.inodeId) :=
    ⟨fun a b hab hba => hab ⟨hba.1.symm, hba.2.symm⟩⟩
  refine h.keys.forall he he' hee ⟨?_, ?_⟩
  · rw [hm, hm', hmount]
  · rw [hi, hi', hid]

/-- Shared mappings of one page of a file show one frame. -/
theorem Ordered.shared_frame (h : st.Ordered excl) {r' va' m m' o' node' : Nat}
    {e e' : Pte} (he : st.userEntry r va = some e) (horigin : e.origin = .object m true o i)
    (he' : st.userEntry r' va' = some e') (horigin' : e'.origin = .object m' true o' i)
    (ho : st.IsFile o node) (ho' : st.IsFile o' node')
    (hsame : st.fileOf node = st.fileOf node') : e.frame = e'.frame := by
  have hinode : (st.node node).inodeId ≠ 0 := by
    rcases h.inMode he horigin ho with ⟨-, -, hinode⟩ | ⟨hmode, -⟩
    · exact hinode
    · cases hmode
  obtain rfl := h.modes.object_unique ho ho' hinode hsame
  have hown := h.sound.frames.lent _ _ e (.object o i) (userEntry_leafAt he) (by rw [horigin]; rfl)
  have hown' := h.sound.frames.lent _ _ e' (.object o i) (userEntry_leafAt he')
    (by rw [horigin']; rfl)
  exact Option.some.inj (hown.symm.trans hown')

/-- Right after a store through a shared mapping every shared mapping of the page has the byte. -/
theorem Ordered.shared_seen (h : st.Ordered excl) {b : UInt8} (hcivil : st.Civil (.store u va b))
    {m : Nat} (hstore : st.StoresTo u va m true o i) (hfile : st.IsFile o node)
    {va' m' o' node' : Nat} {e' : Pte}
    (he' : (vmStep st (.store u va b)).1.userEntry r va' = some e')
    (horigin' : e'.origin = .object m' true o' i)
    (hfile' : (vmStep st (.store u va b)).1.IsFile o' node')
    (hsame : st.fileOf node' = st.fileOf node) (hoff : va' % pageSize = va % pageSize) :
    (vmStep st (.store u va b)).1.load r va' = some b := by
  obtain ⟨excl', h', hafter⟩ := step_ordered h hcivil
  obtain ⟨x, e, hx, he, hwritable, horigin⟩ := hstore
  have hstep : (vmStep st (.store u va b)).1 = st.store x.realm va b := by
    simp only [vmStep, hx]
    rfl
  have hobj : (vmStep st (.store u va b)).1.obj = st.obj := by
    obtain ⟨ph, sp, heq⟩ := store_eq st x.realm va b
    rw [hstep, heq]
  -- it is one object, so one frame
  have hinode : ((vmStep st (.store u va b)).1.node node').inodeId ≠ 0 := by
    rcases h'.inMode he' horigin' hfile' with ⟨-, -, hinode⟩ | ⟨hmode, -⟩
    · exact hinode
    · cases hmode
  have hfile1 : (vmStep st (.store u va b)).1.IsFile o node := by
    unfold IsFile
    rw [hobj]
    exact hfile
  obtain rfl : o' = o := h'.modes.object_unique hfile' hfile1 hinode
    (by rw [hafter.fileOf, hafter.fileOf, hsame])
  have hown : pageAt (st.obj o') i = some e.frame :=
    h.sound.frames.lent _ _ e (.object o' i) (userEntry_leafAt he) (by rw [horigin]; rfl)
  have hown' : pageAt ((vmStep st (.store u va b)).1.obj o') i = some e'.frame :=
    h'.sound.frames.lent _ _ e' (.object o' i) (userEntry_leafAt he') (by rw [horigin']; rfl)
  rw [hobj, hown, Option.some.injEq] at hown'
  have hmem : (vmStep st (.store u va b)).1.phys.mem (e.frame + va % pageSize) = b := by
    rw [hstep, store, he]
    simp [hwritable, ByteMem.set]
  rw [load, he', Option.map_some, ← hown', hoff, hmem]

/-- A file write leaves a byte that it does not cover, or a place behind the end that it does not
reach. -/
theorem getElem?_writeFile {content data : List UInt8} {k : Nat}
    (hout : ¬ (k < offset + data.length ∧ (offset ≤ k ∨ content[k]? = none))) :
    (writeFile content offset data)[k]? = content[k]? := by
  rw [writeFile, getElem?_map]
  cases hb : content[k]? with
  | none =>
    have hge := getElem?_eq_none_iff.mp hb
    have hlt : ¬ k < offset + data.length := fun hlt => hout ⟨hlt, .inr hb⟩
    rw [getElem?_eq_none (by rw [length_range]; omega)]
    rfl
  | some b =>
    obtain ⟨hlt, -⟩ := List.getElem?_eq_some_iff.mp hb
    have hlt' : k < max content.length (offset + data.length) :=
      Nat.lt_of_lt_of_le hlt (Nat.le_max_left _ _)
    rw [getElem?_range hlt', Option.map_some, if_neg fun hin => hout ⟨hin.2, .inl hin.1⟩,
      getD_eq_getElem?_getD, hb]
    rfl

/-- A byte of a file that no step writes stays as it is. -/
theorem byte_kept (h : st.Ordered excl) {as : List VmAction} (has : Along vmStep Civil st as)
    {file : FileId} {k : Nat} (hnot : ∀ a ∈ as, ¬ st.WritesByte file k a) :
    ((final vmStep st as).content file)[k]? = (st.content file)[k]? := by
  induction as generalizing st excl with
  | nil => rfl
  | cons a as ih =>
    obtain ⟨excl', hnext, hafter⟩ := step_ordered h has.1
    have hone : ((vmStep st a).1.content file)[k]? = (st.content file)[k]? := by
      have hquiet := step_content h.modes h.sound has.1.1.2 has.1.2
      cases a with
      | writeNode node offset data size =>
        have hout := hnot _ mem_cons_self
        show (update st.content (st.fileOf node) _ file)[k]? = _
        by_cases hfile : file = st.fileOf node
        · subst hfile
          rw [update_self]
          exact getElem?_writeFile fun hin => hout ⟨rfl, hin⟩
        · rw [update_of_ne hfile]
      | _ => rw [hquiet nofun]
    refine (ih hnext has.2 fun a' ha' hwrites => hnot a' (mem_cons_of_mem _ ha') ?_).trans hone
    -- the nodes stand for the same files as before
    cases a' with
    | writeNode node offset data size =>
      obtain ⟨hfile, hlt, hin⟩ := hwrites
      rw [hone] at hin
      exact ⟨(hafter.fileOf node).symm.trans hfile, hlt, hin⟩
    | _ => exact hwrites

/-! ## The result -/

/-- At boot no file is mapped. -/
structure FilesStarted (st : VmSt) : Prop where
  started : st.Started
  files : ∀ o node, ¬ st.IsFile o node
  table : st.fileTable = []

theorem FilesStarted.ordered (h : st.FilesStarted) : st.Ordered fun _ => none where
  tidy := h.started.booted.tidy
  sound := h.started.sound
  modes := {
    loans := fun l node _ hf => absurd hf (h.files _ node)
    areas := fun o node _ hf => absurd hf (h.files o node)
    named := fun o node hf => absurd hf (h.files o node)
    entries := fun e he => by rw [h.table] at he; cases he
    keys := by rw [h.table]; exact .nil }

/-- The small machine with a file of three bytes, which all nodes stand for. -/
def fileMachine : VmSt :=
  { smallMachine with
    node := fun _ => ⟨0, 7, 3⟩
    content := fun _ => [1, 2, 3] }

/-- Two realms with a unit each and a handle of the file. -/
def twoRealms : List VmAction :=
  [.createRealm 1, .createUnit 0 1 smallUnit, .addHandle 1 5 .file (some 0),
    .createRealm 2, .createUnit 1 2 smallUnit, .addHandle 2 5 .file (some 0)]

theorem fileMachine_started : fileMachine.FilesStarted where
  started :=
    { booted := ⟨fun _ => rfl, fun _ => rfl, by decide, nofun, nofun, nofun⟩
      held := smallMachine_started.held
      unique := smallMachine_started.unique
      counts := nofun
      once := rfl }
  files o node h := by
    obtain ⟨b, hb, -⟩ := h
    cases hb
  table := rfl

end VmSt

end Vespera.Memory
