import Vespera.Lib.Spans
import Vespera.Memory.Vm

/-! # The areas as a map

What a list of areas says about an address: its protection, its flags, its handle, its object and
its place in the file. A call that cuts areas changes this map by a function of the address: for
`munmap` the addresses of the range go (`unmapped`), for `mprotect` they get the new protection
(`reprotected`), and the others stay.

* `Piece`: areas that stand for a stretch of another area, after the change;
* `munmapArea_piece`, `protectArea_piece`: what the calls make of one area;
* `munmapLoop_cuts`, `protectLoop_cuts`: what they make of the list. The areas that are left are
  parts of the old ones (`Cuts`), and as a map they are the old map after the change
  (`Cuts.areaMap`).
-/

namespace Vespera.Memory

open Lib List VmArea

/-! ## What areas say -/

/-- The end of an area, without wrapping. -/
def VmArea.top (v : VmArea) : Nat := v.start + v.length

/-- What an area says about a page. -/
structure PageInfo where
  prot : Nat
  flags : Nat
  handle : UInt64
  backing : Option Nat
  fileOff : Nat
deriving DecidableEq

/-- What an area says about one of its addresses. -/
def VmArea.infoAt (v : VmArea) (a : Nat) : PageInfo :=
  ⟨v.prot, v.flags, v.handle, v.backing, (v.fileOff + (a - v.start)) % 2 ^ 64⟩

/-- The address is in the area, which says this about it. -/
def VmArea.Says (v : VmArea) (a : Nat) (i : PageInfo) : Prop :=
  v.start ≤ a ∧ a < v.top ∧ v.infoAt a = i

/-- What a list of areas says about an address. -/
def areaMap (vs : List VmArea) (a : Nat) : Option PageInfo :=
  (vs.find? fun v => v.start ≤ a ∧ a < v.top).map fun v => v.infoAt a

/-- A change of the map: what becomes of what is said about an address. -/
abbrev Change := Nat → PageInfo → Option PageInfo

/-- The addresses of a range go. -/
def unmapped (base stop : Nat) : Change := fun a i =>
  if base ≤ a ∧ a < stop then none else some i

/-- The addresses of a range get a protection. -/
def reprotected (base stop prot : Nat) : Change := fun a i =>
  some (if base ≤ a ∧ a < stop then { i with prot := prot } else i)

namespace VmSt

/-- An area is part of another. -/
abbrev Part (v w : VmArea) : Prop := Span.Inside start top v w

variable {st : VmSt} {v w : VmArea} {vs ws ps qs : List VmArea} {g : Change}
  {base stop bound s m e : Nat}

theorem end_eq_top (h : v.top < 2 ^ 64) : v.end = v.top := Nat.mod_eq_of_lt h

theorem areaMap_eq_some (h : Span.Ok start top bound vs) {a : Nat} {i : PageInfo} :
    areaMap vs a = some i ↔ ∃ v ∈ vs, v.Says a i := by
  unfold areaMap
  rw [Option.map_eq_some_iff]
  simp only [h.find?_eq_some, VmArea.Says, and_assoc]

theorem top_cut (h : v.start ≤ s) : ({ v with length := s - v.start } : VmArea).top = s :=
  Nat.add_sub_of_le h

/-- The part of an area between two of its addresses. -/
theorem part_top {a b : Nat} (hab : a ≤ b) (hb : b < 2 ^ 64) : (v.part a b).top = b := by
  have hlen : (b + (2 ^ 64 - a)) % 2 ^ 64 = b - a := by
    rw [show b + (2 ^ 64 - a) = b - a + 2 ^ 64 by omega, Nat.add_mod_right]
    exact Nat.mod_eq_of_lt (by omega)
  show a + (b + (2 ^ 64 - a)) % 2 ^ 64 = b
  rw [hlen]
  omega

/-- It says what the area says: the offset goes on where the part starts. -/
theorem part_infoAt {a b c : Nat} (hva : v.start ≤ a) (hac : a ≤ c) :
    (v.part a b).infoAt c = v.infoAt c := by
  have hoff : ((v.fileOff + (a - v.start)) % 2 ^ 64 + (c - a)) % 2 ^ 64 =
      (v.fileOff + (c - v.start)) % 2 ^ 64 := by
    rw [Nat.mod_add_mod]
    congr 1
    omega
  unfold part infoAt
  rw [hoff]

/-! ## Pieces of an area -/

/-- The areas stand for the addresses of `v` from `s` to `e`, after the change. -/
structure Piece (g : Change) (v : VmArea) (s e : Nat) (ps : List VmArea) : Prop where
  ok : Span.Ok start top e ps
  above : ∀ p ∈ ps, s ≤ p.start
  agree : ∀ a i, (∃ p ∈ ps, p.Says a i) ↔ s ≤ a ∧ a < e ∧ g a (v.infoAt a) = some i

/-- One area, that says the right thing. -/
theorem Piece.single (hstart : w.start = s) (htop : w.top = e) (hlt : s < e)
    (hinfo : ∀ a, s ≤ a → a < e → g a (v.infoAt a) = some (w.infoAt a)) : Piece g v s e [w] where
  ok := Span.ok_cons.mpr ⟨⟨by omega, by omega⟩, Span.ok_nil, fun _ hb => nomatch hb⟩
  above := by
    intro p hp
    rw [mem_singleton.mp hp, hstart]
  agree := by
    intro a i
    simp only [mem_singleton, exists_eq_left, VmArea.Says, hstart, htop]
    refine and_congr_right fun hs => and_congr_right fun he => ?_
    rw [hinfo a hs he, Option.some.injEq]

/-- No area, where nothing is to be said. -/
theorem Piece.nil (hg : ∀ a, s ≤ a → a < e → ∀ i, g a i = none) : Piece g v s e [] where
  ok := Span.ok_nil
  above p hp := nomatch hp
  agree := by
    intro a i
    constructor
    · rintro ⟨p, hp, -⟩
      cases hp
    · rintro ⟨hs, he, hi⟩
      rw [hg a hs he] at hi
      cases hi

/-- One stretch after the other. -/
theorem Piece.append (hp : Piece g v s m ps) (hq : Piece g v m e qs) (hsm : s ≤ m) (hme : m ≤ e) :
    Piece g v s e (ps ++ qs) where
  ok := by
    refine Span.ok_append.mpr ⟨hp.ok.mono hme, hq.ok, fun p hp' q hq' => .inl ?_⟩
    exact (hp.ok.proper p hp').2.trans (hq.above q hq')
  above := by
    intro p hpq
    rcases mem_append.mp hpq with h | h
    · exact hp.above p h
    · exact hsm.trans (hq.above p h)
  agree := by
    intro a i
    simp only [mem_append, or_and_right, exists_or, hp.agree, hq.agree]
    constructor
    · rintro (⟨hs, he, hi⟩ | ⟨hs, he, hi⟩)
      · exact ⟨hs, by omega, hi⟩
      · exact ⟨by omega, he, hi⟩
    rintro ⟨hs, he, hi⟩
    rcases Nat.lt_or_ge a m with ham | ham
    · exact .inl ⟨hs, ham, hi⟩
    · exact .inr ⟨ham, he, hi⟩

theorem Piece.perm (h : Piece g v s e ps) (hperm : ps.Perm qs) : Piece g v s e qs where
  ok := h.ok.perm hperm
  above p hp := h.above p (hperm.mem_iff.mpr hp)
  agree a i := by simpa only [hperm.mem_iff] using h.agree a i

/-! ## One area -/

/-- The part of an area before an address. -/
theorem front_piece (hs : v.start < s) (hg : ∀ a, a < s → ∀ i, g a i = some i) :
    Piece g v v.start s [{ v with length := s - v.start }] :=
  .single rfl (top_cut (Nat.le_of_lt hs)) hs fun a _ ha => hg a ha _

/-- The part of an area from an address on. -/
theorem tail_piece (hv : v.start ≤ s) (hs : s < v.top) (h64 : v.top < 2 ^ 64)
    (hg : ∀ a, s ≤ a → ∀ i, g a i = some i) : Piece g v s v.top [v.part s v.top] := by
  refine .single rfl (part_top (Nat.le_of_lt hs) h64) hs fun a ha _ => ?_
  rw [hg a ha, part_infoAt hv ha]

/-- What `munmap` makes of an area. -/
theorem munmapArea_piece (st : VmSt) (hv : v.start < v.top) (h64 : v.top < 2 ^ 64)
    (hle : base ≤ stop) (r : Nat) {split : Bool} (hsplit : split ↔ v.start < base ∧ stop < v.end) :
    Piece (unmapped base stop) v v.start v.top
      ((st.munmapArea r base stop v split).2.2 ++ (st.munmapArea r base stop v split).2.1) := by
  have hend := end_eq_top h64
  have hout : ∀ a, ¬ (base ≤ a ∧ a < stop) → ∀ i, unmapped base stop a i = some i :=
    fun a ha i => if_neg ha
  have hin : ∀ a, base ≤ a → a < stop → ∀ i, unmapped base stop a i = none :=
    fun a hs he i => if_pos ⟨hs, he⟩
  unfold VmSt.munmapArea
  rw [hend] at hsplit ⊢
  split_ifs with hmiss hall hanon hsplit' hstart
  · exact .single rfl rfl hv fun a _ _ => hout a (by omega) _
  · exact .nil fun a _ _ => hin a (by omega) (by omega)
  · exact .nil fun a _ _ => hin a (by omega) (by omega)
  · -- the range lies inside: a part before it and a part behind it
    obtain ⟨hlow, hhigh⟩ := hsplit.mp hsplit'
    have hfront := front_piece hlow fun a ha => hout a (by omega)
    have htail := tail_piece (s := stop) (by omega) hhigh h64 fun a ha => hout a (by omega)
    have hmid : Piece (unmapped base stop) v base stop [] := .nil fun a hs he => hin a hs he
    exact ((hfront.append hmid (by omega) (by omega)).append htail (by omega) (by omega)).perm
      perm_append_comm
  · have hmid : Piece (unmapped base stop) v v.start stop [] :=
      .nil fun a hs he => hin a (by omega) he
    exact hmid.append (tail_piece (by omega) (by omega) h64 fun a ha => hout a (by omega))
      (by omega) (by omega)
  · have hnot : ¬ (v.start < base ∧ stop < v.top) := fun h => hsplit' (hsplit.mpr h)
    have hmid : Piece (unmapped base stop) v base v.top [] :=
      .nil fun a hs he => hin a hs (by omega)
    exact (front_piece (by omega) fun a ha => hout a (by omega)).append hmid (by omega) (by omega)

/-- The part of an area that gets the new protection, with the part before it. -/
theorem protectHead_piece (st : VmSt) {a b : Nat} (hva : v.start ≤ a) (hab : a < b)
    (hb : b ≤ v.top) (h64 : v.top < 2 ^ 64) {prot : Nat}
    (hin : ∀ c, a ≤ c → c < b → ∀ i, g c i = some { i with prot := prot })
    (hout : ∀ c, c < a → ∀ i, v.start < a → g c i = some i) {tails : List VmArea}
    (htails : Piece g v b v.top tails) {room : Nat} (hroom : 1 ≤ room) :
    Piece g v v.start v.top ((protectArea.protectHead st prot v a b tails room).new ++
        (protectArea.protectHead st prot v a b tails room).kept) ∧
      (protectArea.protectHead st prot v a b tails room).ok ∧
      room - 1 ≤ (protectArea.protectHead st prot v a b tails room).room := by
  unfold protectArea.protectHead
  split_ifs with hhead hnoroom
  · omega
  · have hmid : Piece g v a b [{ v.part a b with prot := prot }] := by
      refine .single rfl (part_top (v := v) (Nat.le_of_lt hab) (by omega)) hab fun c hac hcb => ?_
      rw [hin c hac hcb, ← part_infoAt (b := b) hva hac]
      rfl
    have hfront := front_piece hhead fun c hc i => hout c hc i hhead
    refine ⟨((hfront.append (hmid.append htails (by omega) hb) hva (by omega)).perm
      perm_append_comm), rfl, Nat.le_refl _⟩
  have hmid : Piece g v v.start b [{ v with length := b - v.start, prot := prot }] :=
    .single rfl (top_cut (by omega)) (by omega) fun c hac hcb => hin c (by omega) hcb _
  exact ⟨(hmid.append htails (by omega) hb).perm perm_append_comm, rfl, Nat.sub_le _ _⟩

/-- What `mprotect` makes of an area; it makes two new ones at most. -/
theorem protectArea_piece (st : VmSt) (hv : v.start < v.top) (h64 : v.top < 2 ^ 64)
    (hlt : base < stop) (r prot : Nat) {room : Nat} (hroom : 2 ≤ room) :
    Piece (reprotected base stop prot) v v.start v.top
        ((st.protectArea r base stop prot v room).new ++
          (st.protectArea r base stop prot v room).kept) ∧
      (st.protectArea r base stop prot v room).ok ∧
      room - 2 ≤ (st.protectArea r base stop prot v room).room := by
  have hout : ∀ a, ¬ (base ≤ a ∧ a < stop) → ∀ i, reprotected base stop prot a i = some i :=
    fun a ha i => congrArg some (if_neg ha)
  have hin : ∀ a, max v.start base ≤ a → a < min v.top stop → ∀ i,
      reprotected base stop prot a i = some { i with prot := prot } :=
    fun a hs he i => congrArg some (if_pos ⟨by omega, by omega⟩)
  unfold VmSt.protectArea
  dsimp only
  rw [end_eq_top h64]
  split_ifs with hmiss htail hnoroom
  · exact ⟨.single rfl rfl hv fun a _ _ => hout a (by omega) _, rfl, Nat.sub_le _ _⟩
  · omega
  · have htails : Piece (reprotected base stop prot) v (min v.top stop) v.top
        [v.part (min v.top stop) v.top] :=
      tail_piece (by omega) htail h64 fun a ha => hout a (by omega)
    refine And.imp_right (And.imp_right fun hleft => ?_) (protectHead_piece _ (by omega) (by omega)
      (by omega) h64 hin (fun c hc i _ => hout c (by omega) i) htails (show 1 ≤ room - 1 by omega))
    omega
  have htails : Piece (reprotected base stop prot) v (min v.top stop) v.top [] :=
    .nil fun a hs he => absurd he (by omega)
  refine And.imp_right (And.imp_right fun hleft => ?_) (protectHead_piece _ (by omega) (by omega)
    (by omega) h64 hin (fun c hc i _ => hout c (by omega) i) htails (show 1 ≤ room by omega))
  omega

/-! ## The list -/

/-- The areas `ws` are parts of the areas `vs`, and say what the change makes of what those say. -/
structure Cuts (g : Change) (bound : Nat) (vs ws : List VmArea) : Prop where
  ok : Span.Ok start top bound ws
  inside : ∀ w ∈ ws, ∃ v ∈ vs, Part w v
  agree : ∀ a i, (∃ w ∈ ws, w.Says a i) ↔ ∃ v ∈ vs, ∃ j, v.Says a j ∧ g a j = some i

theorem cuts_nil : Cuts g bound [] [] := ⟨Span.ok_nil, fun _ hw => (nomatch hw), fun a i => by simp⟩

/-- The pieces of one area with the cuts of the others, the new ones in front. -/
theorem Cuts.cons {new kept new' kept' : List VmArea}
    (h : Span.Ok start top bound (v :: vs))
    (hv : Piece g v v.start v.top (new ++ kept)) (hvs : Cuts g bound vs (new' ++ kept')) :
    Cuts g bound (v :: vs) ((new' ++ new) ++ (kept ++ kept')) := by
  have hperm : ((new ++ kept) ++ (new' ++ kept')).Perm ((new' ++ new) ++ (kept ++ kept')) := by
    have hswap : ((new ++ kept) ++ new').Perm (new' ++ (new ++ kept)) := perm_append_comm
    simpa only [append_assoc] using hswap.append_right kept'
  have hin : ∀ p ∈ new ++ kept, Part p v := fun p hp => ⟨hv.above p hp, (hv.ok.proper p hp).2⟩
  have hok := h.replace (hv.ok.mono (h.proper v mem_cons_self).2) hin hvs.ok hvs.inside
  refine ⟨hok.perm hperm, fun w hw => ?_, fun a i => ?_⟩
  · rcases mem_append.mp (hperm.mem_iff.mpr hw) with hw | hw
    · exact ⟨v, mem_cons_self, hin w hw⟩
    · obtain ⟨u, hu, hwu⟩ := hvs.inside w hw
      exact ⟨u, mem_cons_of_mem _ hu, hwu⟩
  have hone : (∃ j, v.Says a j ∧ g a j = some i) ↔
      v.start ≤ a ∧ a < v.top ∧ g a (v.infoAt a) = some i := by
    simp [VmArea.Says, and_assoc]
  simp only [← hperm.mem_iff, mem_append, or_and_right, exists_or, mem_cons,
    exists_eq_left, hone, ← hvs.agree, ← hv.agree]

/-- As a map, the areas are the old ones after the change. -/
theorem Cuts.areaMap (h : Cuts g bound vs ws) (hvs : Span.Ok start top bound vs)
    (a : Nat) : areaMap ws a = (Memory.areaMap vs a).bind (g a) := by
  refine Option.ext fun i => ?_
  rw [Option.bind_eq_some_iff, areaMap_eq_some h.ok, h.agree]
  simp only [areaMap_eq_some hvs]
  constructor
  · rintro ⟨v, hv, j, hj, hg⟩
    exact ⟨j, ⟨v, hv, hj⟩, hg⟩
  · rintro ⟨j, ⟨v, hv, hj⟩, hg⟩
    exact ⟨v, hv, j, hj, hg⟩

/-- Of areas that do not overlap, the one that is marked is the one that goes on at both ends. -/
theorem markSplit_spec (hok : Span.Ok start top bound vs) (hbound : bound < 2 ^ 64)
    (hle : base ≤ stop) : (markSplit base stop vs).map Prod.fst = vs ∧
      ∀ x ∈ markSplit base stop vs, x.2 ↔ x.1.start < base ∧ stop < x.1.end := by
  induction vs with
  | nil => exact ⟨rfl, fun x hx => nomatch hx⟩
  | cons v vs ih =>
    obtain ⟨hv, hvs, hapart⟩ := Span.ok_cons.mp hok
    rw [markSplit]
    split_ifs with hboth
    · refine ⟨by simp [Function.comp_def], fun x hx => ?_⟩
      rcases mem_cons.mp hx with rfl | hx
      · exact ⟨fun _ => hboth, fun _ => rfl⟩
      obtain ⟨w, hw, rfl⟩ := mem_map.mp hx
      refine ⟨fun hc => (nomatch hc), fun hw' => ?_⟩
      -- two areas around the same range would overlap
      have hwb := (hvs.proper w hw).2
      have hvend : v.end = v.top := end_eq_top (by omega)
      have hwend : w.end = w.top := end_eq_top (by omega)
      dsimp only at hw'
      rcases hapart w hw with h | h <;> omega
    obtain ⟨hmap, hiff⟩ := ih hvs
    refine ⟨by simp [hmap], fun x hx => ?_⟩
    rcases mem_cons.mp hx with rfl | hx
    · exact ⟨fun hc => (nomatch hc), fun hc => absurd hc hboth⟩
    · exact hiff x hx

/-- What `munmap` makes of the list. -/
theorem munmapLoop_cuts (st : VmSt) (hle : base ≤ stop) (r : Nat) {xs : List (VmArea × Bool)}
    (h : Span.Ok start top bound (xs.map Prod.fst)) (hbound : bound < 2 ^ 64)
    (hsplit : ∀ x ∈ xs, x.2 ↔ x.1.start < base ∧ stop < x.1.end) :
    Cuts (unmapped base stop) bound (xs.map Prod.fst)
      ((munmapLoop r base stop xs st).2.2 ++ (munmapLoop r base stop xs st).2.1) := by
  induction xs generalizing st with
  | nil => exact cuts_nil
  | cons x xs ih =>
    obtain ⟨hx, hxs, -⟩ := Span.ok_cons.mp h
    have hpiece := munmapArea_piece st hx.1 (by omega) hle r (hsplit x mem_cons_self)
    have hrest := ih (st.munmapArea r base stop x.1 x.2).1 hxs
      fun y hy => hsplit y (mem_cons_of_mem x hy)
    rw [munmapLoop]
    exact .cons h hpiece hrest

/-- What `mprotect` makes of the list, if there is room for two new areas for each old one. -/
theorem protectLoop_cuts (st : VmSt) (hlt : base < stop) (r prot : Nat)
    (h : Span.Ok start top bound vs) (hbound : bound < 2 ^ 64) {room : Nat}
    (hroom : 2 * vs.length ≤ room) : Cuts (reprotected base stop prot) bound vs
        ((protectLoop r base stop prot vs room st).2.2.1 ++
          (protectLoop r base stop prot vs room st).2.1) ∧
      (protectLoop r base stop prot vs room st).2.2.2 := by
  induction vs generalizing st room with
  | nil => exact ⟨cuts_nil, rfl⟩
  | cons v vs ih =>
    rw [length_cons] at hroom
    obtain ⟨hv, hvs, -⟩ := Span.ok_cons.mp h
    obtain ⟨hpiece, hok, hleft⟩ := protectArea_piece st hv.1 (by omega) hlt r prot
      (show 2 ≤ room by omega)
    obtain ⟨hrest, hall⟩ := ih (st.protectArea r base stop prot v room).st hvs
      (show 2 * vs.length ≤ (st.protectArea r base stop prot v room).room by omega)
    rw [protectLoop]
    rw [if_pos hok]
    exact ⟨.cons h hpiece hrest, hall⟩

end VmSt

end Vespera.Memory
