import Mathlib.Algebra.Group.Nat.Defs
import Mathlib.Data.List.FinRange
import Mathlib.Logic.Function.Basic

/-! # The file allocation table

The entries of `filesystem/fat32/fat32.cpp` and the cache of sectors that they are read through.
Sectors have 512 bytes, which is what the slots of the cache hold, so that no entry lies in two of
them; they are read and written as 128 words. Accesses to the device succeed.

`get_fat_entry` repairs an entry that is valid in the second copy only. The repair goes through
`write_fat_entry`, which reads the old value first: it comes back to the same entry and repairs it
again. So the call does not return (`getFatEntry_repair`), and in all other cases it returns at once
(`repairs_iff`).
-/

namespace Vespera.Fat32

open Function

/-- The fields of `BPB_FAT32` that the table needs, and `cluster_count`. -/
structure Bpb where
  reservedSectorCount : Nat
  tableCount : Nat
  fatSize32 : Nat
  clusterCount : Nat

def fatCacheSize : Nat := 10

/-- A sector: its words. -/
abbrev Sector : Type := Nat → Nat

structure CacheEntry where
  sector : Nat
  data : Sector
  lastUsed : Nat
  valid : Bool

/-- The state of a `FileSystem`, with the device and the number of writes to it. -/
structure FileSystem where
  disk : Nat → Sector
  writes : Nat
  fatCache : Fin fatCacheSize → CacheEntry
  cacheAccessCounter : Nat
  freeClusterCount : Nat

namespace FileSystem

variable (st : FileSystem)

/-- The slot for a new sector: the first empty one, or the one that was not used for longest. -/
def replaceIdx : Fin fatCacheSize :=
  ((List.finRange fatCacheSize).find? fun i => !(st.fatCache i).valid).getD <|
    (List.finRange fatCacheSize).foldl (fun best i =>
      if (st.fatCache i).lastUsed < (st.fatCache best).lastUsed then i else best) ⟨0, by decide⟩

def readFatSector (s : Nat) : FileSystem × Sector :=
  let now := (st.cacheAccessCounter + 1) % 2 ^ 32
  let st := { st with cacheAccessCounter := now }
  match (List.finRange fatCacheSize).find? fun i =>
      (st.fatCache i).valid && (st.fatCache i).sector == s with
  | some i =>
    ({ st with fatCache := update st.fatCache i { st.fatCache i with lastUsed := now } },
      (st.fatCache i).data)
  | none =>
    ({ st with fatCache := update st.fatCache st.replaceIdx ⟨s, st.disk s, now, true⟩ }, st.disk s)

def invalidateFatCacheSector (s : Nat) : FileSystem :=
  { st with fatCache := fun i =>
      if (st.fatCache i).sector = s then { st.fatCache i with valid := false } else st.fatCache i }

/-- `write_fat_entry_raw`: the sector is read, changed and written, past the cache. -/
def writeFatEntryRaw (s word value : Nat) : FileSystem :=
  { st with
    disk := update st.disk s (update (st.disk s) word value)
    writes := st.writes + 1 }.invalidateFatCacheSector s

end FileSystem

/-- `0x0FFFFFFF`. -/
def endOfChain : Nat := 2 ^ 28 - 1

namespace Bpb

variable (v : Bpb)

/-- `cluster_count + 2`. -/
def limit : Nat := (v.clusterCount + 2) % 2 ^ 32

/-- The numbers of data clusters. -/
abbrev InRange (c : Nat) : Prop := 2 ≤ c ∧ c < v.limit

/-- `is_valid_fat_entry`: free, the end, or a cluster that is not marked bad. -/
def IsValidFatEntry (value : Nat) : Prop :=
  value = 0 ∨ 0x0FFFFFF8 ≤ value ∨ value ≠ 0x0FFFFFF7 ∧ v.InRange value

instance (value : Nat) : Decidable (v.IsValidFatEntry value) :=
  inferInstanceAs (Decidable (_ ∨ _ ∨ _))

/-- The sector of a cluster's entry in a copy of the table: the offset is `cluster * 4`. -/
def fatSector (fat c : Nat) : Nat :=
  (v.reservedSectorCount + fat * v.fatSize32 + c % 2 ^ 30 / 128) % 2 ^ 32

/-- The word of the entry in its sector. -/
def fatWord (c : Nat) : Nat := c % 2 ^ 30 % 128

/-- The entry in a copy of the table. -/
def entry (disk : Nat → Sector) (fat c : Nat) : Nat := disk (v.fatSector fat c) (fatWord c) % 2 ^ 28

/-- The entry as it is read through the cache. -/
def readEntry (st : FileSystem) (fat c : Nat) : FileSystem × Nat :=
  let x := st.readFatSector (v.fatSector fat c)
  (x.1, x.2 (fatWord c) % 2 ^ 28)

/-- The end of `write_fat_entry`, when the old value is known. -/
def putFatEntry (st : FileSystem) (c old value : Nat) : FileSystem :=
  let st := (List.range v.tableCount).foldl
    (fun st fat => st.writeFatEntryRaw (v.fatSector fat c) (fatWord c) value) st
  if st.freeClusterCount = 2 ^ 32 - 1 then st
  else if old = 0 ∧ value ≠ 0 then
    { st with freeClusterCount := (st.freeClusterCount + (2 ^ 32 - 1)) % 2 ^ 32 }
  else if old ≠ 0 ∧ value = 0 then
    { st with freeClusterCount := (st.freeClusterCount + 1) % 2 ^ 32 }
  else st

/-- `get_fat_entry`; `none` if the calls are nested deeper than `fuel`. -/
def getFatEntry : Nat → FileSystem → Nat → Option (FileSystem × Nat)
  | 0, _, _ => none
  | fuel + 1, st, c =>
    if ¬ v.InRange c then some (st, endOfChain)
    else
      let x := v.readEntry st 0 c
      if v.IsValidFatEntry x.2 ∨ v.tableCount < 2 then some x
      else
        let y := v.readEntry x.1 1 c
        if v.IsValidFatEntry y.2 then
          -- `write_fat_entry` reads the old value
          (getFatEntry fuel y.1 c).map fun z => (v.putFatEntry z.1 c z.2 y.2, y.2)
        else some (y.1, endOfChain)

def writeFatEntry (fuel : Nat) (st : FileSystem) (c value : Nat) : Option FileSystem :=
  (v.getFatEntry fuel st c).map fun x => v.putFatEntry x.1 c x.2 (value % 2 ^ 28)

end Bpb

/-! ## The cache -/

/-- The device has this content, and so have the slots of the cache. -/
structure FileSystem.Shows (st : FileSystem) (content : Nat → Sector) : Prop where
  disk : st.disk = content
  cache : ∀ i, (st.fatCache i).valid → (st.fatCache i).data = content (st.fatCache i).sector

variable {v : Bpb} {st : FileSystem} {disk : Nat → Sector} {c : Nat}

/-- A sector is read as it is on the device. -/
theorem FileSystem.Shows.readFatSector (h : st.Shows disk) (s : Nat) :
    ∃ st', st.readFatSector s = (st', disk s) ∧ st'.Shows disk ∧ st'.writes = st.writes := by
  unfold FileSystem.readFatSector
  dsimp only
  split
  · rename_i i hfind
    obtain ⟨hvalid, rfl⟩ : (st.fatCache i).valid = true ∧ (st.fatCache i).sector = s := by
      simpa using List.find?_some hfind
    have hdata := h.cache i hvalid
    refine ⟨_, congrArg (_, ·) hdata, ⟨h.disk, fun j hj => ?_⟩, rfl⟩
    dsimp only at hj ⊢
    by_cases hji : j = i
    · subst hji
      simpa using hdata
    · rw [update_of_ne hji] at hj ⊢
      exact h.cache j hj
  refine ⟨_, congrArg (_, ·) (congrFun h.disk s), ⟨h.disk, fun j hj => ?_⟩, rfl⟩
  dsimp only at hj ⊢
  generalize FileSystem.replaceIdx _ = i at hj ⊢
  by_cases hji : j = i
  · subst hji
    simp [h.disk]
  · rw [update_of_ne hji] at hj ⊢
    exact h.cache j hj

theorem FileSystem.Shows.readEntry (h : st.Shows disk) (v : Bpb) (fat c : Nat) :
    ∃ st', v.readEntry st fat c = (st', v.entry disk fat c) ∧ st'.Shows disk ∧
      st'.writes = st.writes := by
  obtain ⟨st', heq, hrest⟩ := h.readFatSector (v.fatSector fat c)
  exact ⟨st', by rw [Bpb.readEntry, heq]; rfl, hrest⟩

/-! ## The repair -/

namespace Bpb

/-- An entry that needs no repair is read without a write. -/
theorem getFatEntry_valid (h : st.Shows disk) (hc : v.InRange c)
    (hvalid : v.IsValidFatEntry (v.entry disk 0 c)) (fuel : Nat) :
    ∃ st', v.getFatEntry (fuel + 1) st c = some (st', v.entry disk 0 c) ∧ st'.Shows disk ∧
      st'.writes = st.writes := by
  obtain ⟨st', heq, hrest⟩ := h.readEntry v 0 c
  refine ⟨st', ?_, hrest⟩
  rw [getFatEntry, if_neg (not_not.mpr hc)]
  simp only [heq, hvalid, true_or, if_true]

/-- The entry is valid in the second copy only. -/
structure Damaged (v : Bpb) (disk : Nat → Sector) (c : Nat) : Prop where
  inRange : v.InRange c
  first : ¬ v.IsValidFatEntry (v.entry disk 0 c)
  second : v.IsValidFatEntry (v.entry disk 1 c)

/-- The repair does not return. -/
theorem getFatEntry_repair (htwo : 2 ≤ v.tableCount) (hbad : v.Damaged disk c) (h : st.Shows disk)
    (fuel : Nat) : v.getFatEntry fuel st c = none := by
  induction fuel generalizing st with
  | zero => rfl
  | succ fuel ih =>
    obtain ⟨st1, h1, hshows1, -⟩ := h.readEntry v 0 c
    obtain ⟨st2, h2, hshows2, -⟩ := hshows1.readEntry v 1 c
    rw [getFatEntry, if_neg (not_not.mpr hbad.inRange)]
    simp only [h1, h2, hbad.first, hbad.second, false_or, Nat.not_lt.mpr htwo, if_true, if_false,
      ih hshows2, Option.map_none]

/-- Every other entry is read at once. -/
theorem getFatEntry_returns (h : st.Shows disk) (hgood : ¬ v.Damaged disk c) (fuel : Nat) :
    (v.getFatEntry (fuel + 1) st c).isSome := by
  obtain ⟨st1, h1, hshows1, -⟩ := h.readEntry v 0 c
  obtain ⟨st2, h2, -⟩ := hshows1.readEntry v 1 c
  rw [getFatEntry]
  simp only [h1, h2]
  split_ifs with hc hfirst hsecond
  · rfl
  · exact absurd ⟨hc, fun hv => hfirst (.inl hv), hsecond⟩ hgood
  · rfl
  · rfl

/-- What reading and writing an entry should do. -/
structure Repairs (v : Bpb) (st : FileSystem) (c : Nat) : Prop where
  get_returns : ∃ fuel, (v.getFatEntry fuel st c).isSome
  write_returns : ∀ value, ∃ fuel, (v.writeFatEntry fuel st c value).isSome
  heals : v.Damaged st.disk c → ∃ fuel st',
    v.getFatEntry fuel st c = some (st', v.entry st.disk 1 c) ∧
      v.entry st'.disk 0 c = v.entry st.disk 1 c ∧ v.entry st'.disk 1 c = v.entry st.disk 1 c
  unchanged : v.InRange c → v.IsValidFatEntry (v.entry st.disk 0 c) → ∃ fuel st',
    v.getFatEntry fuel st c = some (st', v.entry st.disk 0 c) ∧ st'.writes = st.writes

/-- Reading and writing an entry do what they should when there is nothing to repair. -/
theorem repairs_iff (h : st.Shows st.disk) (htwo : v.tableCount = 2) :
    v.Repairs st c ↔ ¬ v.Damaged st.disk c := by
  constructor
  · intro hrepairs hbad
    obtain ⟨fuel, hsome⟩ := hrepairs.get_returns
    rw [getFatEntry_repair htwo.ge hbad h fuel] at hsome
    cases hsome
  intro hgood
  have hreturns := getFatEntry_returns h hgood 0
  refine ⟨⟨1, hreturns⟩, fun value => ⟨1, by rw [writeFatEntry, Option.isSome_map]; exact hreturns⟩,
    fun hbad => absurd hbad hgood, fun hc hvalid => ?_⟩
  obtain ⟨st', heq, -, hwrites⟩ := getFatEntry_valid h hc hvalid 0
  exact ⟨1, st', heq, hwrites⟩

/-- A volume with the fewest clusters that `probe_fs` takes, and two copies of 512 sectors. -/
def smallVolume : Bpb := ⟨32, 2, 512, 65525⟩

/-- Its table, with nothing in the cache. -/
def smallTable (disk : Nat → Sector) : FileSystem :=
  ⟨disk, 0, fun _ => ⟨0, fun _ => 0, 0, false⟩, 0, 2 ^ 32 - 1⟩

theorem smallTable_shows (disk : Nat → Sector) : (smallTable disk).Shows disk :=
  ⟨rfl, fun _ h => nomatch h⟩

/-- The entries that are free in both copies, or broken in both, are read and written. -/
theorem repairs_iff_small :
    smallVolume.Repairs (smallTable fun _ word => if word = 4 then 1 else 0) 4 :=
  (repairs_iff (smallTable_shows _) rfl).mpr fun h => absurd h.second (by decide)

/-- One sector of the first copy has 1 where the second copy has the ends of chains. -/
theorem repair_never_returns : ¬ ∃ fuel, smallVolume.getFatEntry fuel
    (smallTable fun s _ => if s = 32 then 1 else endOfChain) 2 ≠ none := by
  rintro ⟨fuel, hreturns⟩
  exact hreturns (getFatEntry_repair (by decide) ⟨by decide, by decide, by decide⟩
    (smallTable_shows _) fuel)

end Bpb

end Vespera.Fat32
