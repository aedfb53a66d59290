import Mathlib.Algebra.Group.Int.Defs
import Mathlib.Algebra.Group.Nat.Defs
import Vespera.Lib.Run

/-! # The output side of a terminal

`tty_process_output` of `kernel/tty/tty.cpp` and `utf8_decode` of `lib/decoding/utf.cpp`: a byte is
printed, moves the cursor, or belongs to an escape sequence. What the terminal is told to do is the
answer of a step. The parameters of a sequence are of type `int` and wrap; the position is of type
`usize`.

Line feeds and printed characters move the cursor without looking at the size of the screen, and
so does a move up or to the left by a negative number. In every run without such a step the cursor
stays on the screen (`cursor_on_screen`).
-/

namespace Vespera.Ttys

open Lib

/-- A number as a `usize`. -/
def usize (x : Int) : Nat := (x % 2 ^ 64).toNat

/-- The visible part of a terminal. -/
structure Screen where
  cols : Nat
  rows : Nat
  cols_pos : 0 < cols
  rows_pos : 0 < rows
  cols_lt : cols < 2 ^ 64
  rows_lt : rows < 2 ^ 64

inductive EscapeState where
  | none
  | escReceived
  | csiReceived
  deriving DecidableEq

structure Utf8State where
  codepoint : UInt32
  remaining : Nat

def utf8Decode (s : Utf8State) (byte : UInt8) : Utf8State × Option UInt32 :=
  if s.remaining = 0 then
    if byte < 0x80 then (s, some byte.toUInt32)
    else if byte &&& 0xE0 = 0xC0 then (⟨(byte &&& 0x1F).toUInt32, 1⟩, none)
    else if byte &&& 0xF0 = 0xE0 then (⟨(byte &&& 0x0F).toUInt32, 2⟩, none)
    else if byte &&& 0xF8 = 0xF0 then (⟨(byte &&& 0x07).toUInt32, 3⟩, none)
    else (s, some 0xFFFD)
  else if byte &&& 0xC0 ≠ 0x80 then ({ s with remaining := 0 }, some 0xFFFD)
  else
    let s : Utf8State := ⟨s.codepoint <<< 6 ||| (byte &&& 0x3F).toUInt32, s.remaining - 1⟩
    (s, if s.remaining = 0 then some s.codepoint else none)

/-- A terminal. The two buffers are the bytes that are in use. -/
structure Tty where
  canonBuffer : List UInt8
  lineReady : Bool
  rawBuffer : List UInt8
  canonical : Bool
  escState : EscapeState
  escParam : Int32
  escParams : List Int32
  escPrivateMode : Bool
  cursorX : Nat
  cursorY : Nat
  savedCursorX : Nat
  savedCursorY : Nat
  utf8 : Utf8State

def bufferSize : Nat := 1024

def maxParams : Nat := 16

/-- What the screen is told, and what is reported to the program. -/
inductive Event where
  | newLine
  | setCursor (x y : Nat)
  | putChar (c : UInt8)
  | putCodepoint (cp : UInt32)
  | eraseInDisplay (mode : Int32) (x y : Nat)
  | eraseInLine (mode : Int32) (x y : Nat)
  | clear
  | setCursorVisible (b : Bool)
  /-- `tty_apply_sgr`, which sets colours only. -/
  | applySgr (params : List Int32)
  /-- The position that `CSI 6 n` reports, counted from 1. -/
  | report (row col : Nat)
  deriving DecidableEq

namespace Tty

/-- A new terminal. -/
def init (canonical : Bool) : Tty :=
  ⟨[], false, [], canonical, .none, 0, [], false, 0, 0, 0, 0, ⟨0, 0⟩⟩

/-- A parameter of the sequence; 0 stands for its default. -/
def p (t : Tty) (idx : Nat) (dflt : Int32) : Int32 :=
  match t.escParams[idx]? with
  | none => dflt
  | some v => if v = 0 then dflt else v

/-- The first parameter, as `J`, `K` and the private modes read it. -/
def mode (t : Tty) : Int32 := t.escParams.headD 0

/-- End of a parameter. -/
def pushParam (t : Tty) : Tty :=
  if t.escParams.length < maxParams then { t with escParams := t.escParams ++ [t.escParam] } else t

/-- Put the cursor somewhere. -/
def moveTo (t : Tty) (x y : Nat) : Tty × List Event :=
  ({ t with cursorX := x, cursorY := y }, [.setCursor x y])

/-- An `int`, at least 0 and less than `n`. -/
def clamp (n : Nat) (v : Int32) : Nat :=
  if v.toInt.toNat ≥ n then usize (.ofNat n - 1 : Int32).toInt else v.toInt.toNat

/-- Forward by `d`, before `n`. -/
def forward (n pos : Nat) (d : Int32) : Nat :=
  if usize (pos + d.toInt) ≥ n then n - 1 else usize (pos + d.toInt)

/-- Back by `d`, not below 0. -/
def back (pos : Nat) (d : Int32) : Nat := (.ofNat pos - d : Int32).toInt.toNat

/-- `tty_clear`. -/
def clear (t : Tty) : Tty × List Event :=
  ({ t with
    canonBuffer := []
    lineReady := false
    cursorX := 0
    cursorY := 0
    escState := .none
    escParam := 0
    escParams := [] }, [.clear])

/-- The text of a cursor report. -/
def reportText (row col : Nat) : List UInt8 := s!"\x1b[{row};{col}R".toUTF8.toList

/-- Put a cursor report where the program reads it. -/
def report (t : Tty) : Tty × List Event :=
  let text := reportText (t.cursorY + 1) (t.cursorX + 1)
  let t := { t with rawBuffer := t.rawBuffer ++ text.take (bufferSize - 1 - t.rawBuffer.length) }
  (if t.canonical then
    { t with
      canonBuffer := t.canonBuffer ++ text.take (bufferSize - 1 - t.canonBuffer.length)
      lineReady := true }
  else t, [.report (t.cursorY + 1) (t.cursorX + 1)])

/-- The last byte of a sequence, after its parameters. -/
def csi (scr : Screen) (t : Tty) (c : Char) : Tty × List Event :=
  match c with
  | 'm' => (t, [.applySgr t.escParams])
  | 'H' | 'f' =>
    t.moveTo (clamp scr.cols (t.p 1 1 - 1)) (clamp scr.rows (t.p 0 1 - 1))
  | 'A' => t.moveTo t.cursorX (back t.cursorY (t.p 0 1))
  | 'B' => t.moveTo t.cursorX (forward scr.rows t.cursorY (t.p 0 1))
  | 'C' => t.moveTo (forward scr.cols t.cursorX (t.p 0 1)) t.cursorY
  | 'D' => t.moveTo (back t.cursorX (t.p 0 1)) t.cursorY
  | 'E' => t.moveTo 0 (forward scr.rows t.cursorY (t.p 0 1))
  | 'F' => t.moveTo 0 (back t.cursorY (t.p 0 1))
  | 'G' => t.moveTo (clamp scr.cols (t.p 0 1 - 1)) t.cursorY
  | 'd' => t.moveTo t.cursorX (clamp scr.rows (t.p 0 1 - 1))
  | 's' => ({ t with savedCursorX := t.cursorX, savedCursorY := t.cursorY }, [])
  | 'u' => t.moveTo t.savedCursorX t.savedCursorY
  | 'J' => if t.mode = 2 then t.clear else (t, [.eraseInDisplay t.mode t.cursorX t.cursorY])
  | 'K' => (t, [.eraseInLine t.mode t.cursorX t.cursorY])
  | 'n' => if t.p 0 0 = 6 then t.report else (t, [])
  | _ => (t, [])

/-- The same for a private mode. -/
def privateCsi (t : Tty) (c : Char) : List Event :=
  if t.mode = 25 ∧ c = 'h' then [.setCursorVisible true]
  else if t.mode = 25 ∧ c = 'l' then [.setCursorVisible false]
  else []

/-- A byte outside of a sequence. -/
def plain (scr : Screen) (t : Tty) (c : UInt8) : Tty × List Event :=
  if c = 0x1B then ({ t with escState := .escReceived }, [])
  else if c = 10 then ({ t with cursorX := 0, cursorY := t.cursorY + 1 }, [.newLine])
  else if c = 13 then t.moveTo 0 t.cursorY
  else if c = 9 then
    let nextTab := (t.cursorX / 8 + 1) * 8
    let target := if nextTab < scr.cols then nextTab else scr.cols - 1
    ({ t with cursorX := max t.cursorX target }, .replicate (target - t.cursorX) (.putChar 32))
  else
    let r := utf8Decode t.utf8 c
    match r.2 with
    | none => ({ t with utf8 := r.1 }, [])
    | some cp => ({ t with utf8 := r.1, cursorX := t.cursorX + 1 }, [.putCodepoint cp])

/-- `tty_process_output`. -/
def processOutput (scr : Screen) (t : Tty) (c : UInt8) : Tty × List Event :=
  match t.escState with
  | .none => t.plain scr c
  | .escReceived =>
    if c = 0x5B then
      ({ t with escState := .csiReceived, escParam := 0, escParams := [] }, [])
    else ({ t with escState := .none }, [])
  | .csiReceived =>
    if c = 0x3F then ({ t with escPrivateMode := true }, [])
    else if 0x30 ≤ c ∧ c ≤ 0x39 then
      ({ t with escParam := t.escParam * 10 + .ofNat (c.toNat - 0x30) }, [])
    else if c = 0x3B then ({ t.pushParam with escParam := 0 }, [])
    else
      let t := t.pushParam
      let r := if t.escPrivateMode then (t, t.privateCsi (.ofNat c.toNat))
        else t.csi scr (.ofNat c.toNat)
      ({ r.1 with escState := .none, escParam := 0, escParams := [], escPrivateMode := false }, r.2)

end Tty

/-! ## The cursor -/

/-- A place that can be seen. -/
def Screen.Shows (scr : Screen) (x y : Nat) : Prop := x < scr.cols ∧ y < scr.rows

instance (scr : Screen) (x y : Nat) : Decidable (scr.Shows x y) :=
  inferInstanceAs (Decidable (_ ∧ _))

/-- The cursor and the saved one are on the screen. -/
structure OnScreen (scr : Screen) (t : Tty) : Prop where
  cursor : scr.Shows t.cursorX t.cursorY
  saved : scr.Shows t.savedCursorX t.savedCursorY

/-- The place that the event is about can be seen. -/
def Event.Visible (scr : Screen) : Event → Prop
  | .setCursor x y | .eraseInDisplay _ x y | .eraseInLine _ x y => scr.Shows x y
  | .report row col => 0 < row ∧ 0 < col ∧ scr.Shows (col - 1) (row - 1)
  | _ => True

/-- The byte prints a character. -/
def Prints (t : Tty) (c : UInt8) : Prop :=
  c ≠ 0x1B ∧ c ≠ 10 ∧ c ≠ 13 ∧ c ≠ 9 ∧ (utf8Decode t.utf8 c).2.isSome = true

instance (t : Tty) (c : UInt8) : Decidable (Prints t c) :=
  inferInstanceAs (Decidable (_ ∧ _ ∧ _ ∧ _ ∧ _))

/-- There is room for a line feed or a character, and no move back has a negative number. -/
def Gentle (scr : Screen) (t : Tty) (c : UInt8) : Prop :=
  match t.escState with
  | .none => (c = 10 → t.cursorY + 1 < scr.rows) ∧ (Prints t c → t.cursorX + 1 < scr.cols)
  | .escReceived => True
  | .csiReceived => .ofNat c.toNat ∈ ['A', 'D', 'F'] → 0 < t.pushParam.p 0 1

instance (scr : Screen) (t : Tty) (c : UInt8) : Decidable (Gentle scr t c) := by
  unfold Gentle
  split <;> infer_instance

section Cursor

variable {scr : Screen} {t : Tty}

theorem clamp_lt {n : Nat} (hn : 0 < n) (v : Int32) : Tty.clamp n v < n := by
  unfold Tty.clamp
  split
  · next hge =>
    -- then `n` is an `int`
    have hv := v.toInt_lt
    rw [Int32.toInt_sub, Int32.toInt_ofNat_of_lt (by omega), Int32.toInt_one, Int.bmod_def, usize]
    omega
  · next hlt => exact Nat.lt_of_not_le hlt

theorem forward_lt {n : Nat} (hn : 0 < n) {pos : Nat} {d : Int32} : Tty.forward n pos d < n := by
  unfold Tty.forward
  split
  · exact Nat.sub_lt hn Nat.one_pos
  · next hlt => exact Nat.lt_of_not_le hlt

/-- A move back by at least 1, even if the position does not fit an `int`. -/
theorem back_lt {n pos : Nat} (h : pos < n) {d : Int32} (hd : 0 < d) : Tty.back pos d < n := by
  have hd : 0 < d.toInt := Int32.lt_iff_toInt_lt.mp hd
  have hlt := d.toInt_lt
  unfold Tty.back
  rw [Int32.toInt_sub, Int32.toInt_ofNat', Int32.size, Int.bmod_def, Int.bmod_def]
  omega

/-- What a step makes of a cursor on the screen. -/
def Stays (scr : Screen) (r : Tty × List Event) : Prop :=
  OnScreen scr r.1 ∧ ∀ e ∈ r.2, e.Visible scr

section

variable (h : OnScreen scr t)

include h

theorem OnScreen.moveTo {x y : Nat} (hx : x < scr.cols) (hy : y < scr.rows) :
    Stays scr (t.moveTo x y) := by
  refine ⟨⟨⟨hx, hy⟩, h.saved⟩, fun e he => ?_⟩
  rw [List.mem_singleton.mp he]
  exact ⟨hx, hy⟩

theorem OnScreen.report : Stays scr t.report := by
  refine ⟨?_, fun e he => ?_⟩
  · unfold Tty.report
    dsimp only
    split
    all_goals exact ⟨h.cursor, h.saved⟩
  · rw [List.mem_singleton.mp he]
    exact ⟨Nat.succ_pos _, Nat.succ_pos _, h.cursor⟩

theorem OnScreen.csi (c : Char)
    (hback : c ∈ ['A', 'D', 'F'] → 0 < t.p 0 1) : Stays scr (t.csi scr c) := by
  have hstay : Stays scr (t, []) := ⟨h, fun e he => nomatch he⟩
  have hone : ∀ e : Event, e.Visible scr → Stays scr (t, [e]) := fun e he =>
    ⟨h, fun e' he' => List.mem_singleton.mp he' ▸ he⟩
  obtain ⟨hx, hy⟩ := h.cursor
  have hcol := clamp_lt scr.cols_pos
  have hrow := clamp_lt scr.rows_pos
  unfold Tty.csi
  split
  · exact hone _ trivial
  · exact h.moveTo (hcol _) (hrow _)
  · exact h.moveTo (hcol _) (hrow _)
  · exact h.moveTo hx (back_lt hy (hback (by decide)))
  · exact h.moveTo hx (forward_lt scr.rows_pos)
  · exact h.moveTo (forward_lt scr.cols_pos) hy
  · exact h.moveTo (back_lt hx (hback (by decide))) hy
  · exact h.moveTo scr.cols_pos (forward_lt scr.rows_pos)
  · exact h.moveTo scr.cols_pos (back_lt hy (hback (by decide)))
  · exact h.moveTo (hcol _) hy
  · exact h.moveTo hx (hrow _)
  · exact ⟨⟨h.cursor, h.cursor⟩, fun e he => nomatch he⟩
  · exact h.moveTo h.saved.1 h.saved.2
  · split
    · refine ⟨⟨⟨scr.cols_pos, scr.rows_pos⟩, h.saved⟩, fun e he => ?_⟩
      rw [List.mem_singleton.mp he]
      trivial
    · exact hone _ h.cursor
  · exact hone _ h.cursor
  · split
    · exact h.report
    · exact hstay
  · exact hstay

theorem OnScreen.plain {c : UInt8}
    (hline : c = 10 → t.cursorY + 1 < scr.rows) (hprint : Prints t c → t.cursorX + 1 < scr.cols) :
    Stays scr (t.plain scr c) := by
  unfold Tty.plain
  split
  · exact ⟨⟨h.cursor, h.saved⟩, fun e he => nomatch he⟩
  next hesc =>
  split
  · next hfeed =>
    refine ⟨⟨⟨scr.cols_pos, hline hfeed⟩, h.saved⟩, fun e he => ?_⟩
    rw [List.mem_singleton.mp he]
    trivial
  next hfeed =>
  split
  · exact h.moveTo scr.cols_pos h.cursor.2
  next hreturn =>
  split
  · have hx := h.cursor.1
    refine ⟨⟨⟨?_, h.cursor.2⟩, h.saved⟩, fun e he => ?_⟩
    · dsimp only
      split <;> omega
    · rw [List.eq_of_mem_replicate he]
      trivial
  next htab =>
  dsimp only
  split
  · exact ⟨⟨h.cursor, h.saved⟩, fun e he => nomatch he⟩
  next cp hcp =>
  have hprints : Prints t c := ⟨hesc, hfeed, hreturn, htab, by rw [hcp]; rfl⟩
  refine ⟨⟨⟨hprint hprints, h.cursor.2⟩, h.saved⟩, fun e he => ?_⟩
  rw [List.mem_singleton.mp he]
  trivial

/-- Step lemma. -/
theorem OnScreen.processOutput {c : UInt8} (hc : Gentle scr t c) :
    Stays scr (t.processOutput scr c) := by
  have hnone : ∀ {t' : Tty}, OnScreen scr t' → Stays scr (t', []) := fun h' =>
    ⟨h', fun e he => nomatch he⟩
  have hpush : OnScreen scr t.pushParam := by
    unfold Tty.pushParam
    split
    · exact ⟨h.cursor, h.saved⟩
    · exact h
  unfold Gentle at hc
  unfold Tty.processOutput
  split
  · next hstate =>
    rw [hstate] at hc
    exact h.plain hc.1 hc.2
  · split
    all_goals exact hnone ⟨h.cursor, h.saved⟩
  next hstate =>
  rw [hstate] at hc
  split
  · exact hnone ⟨h.cursor, h.saved⟩
  split
  · exact hnone ⟨h.cursor, h.saved⟩
  split
  · exact hnone ⟨hpush.cursor, hpush.saved⟩
  dsimp only
  split
  · refine ⟨⟨hpush.cursor, hpush.saved⟩, fun e he => ?_⟩
    unfold Tty.privateCsi at he
    split_ifs at he
    all_goals simp only [List.mem_singleton, List.not_mem_nil] at he
    all_goals
      rw [he]
      trivial
  · obtain ⟨hstays, hvisible⟩ := hpush.csi (.ofNat c.toNat) hc
    exact ⟨⟨hstays.cursor, hstays.saved⟩, hvisible⟩

end

/-- Step after step the cursor stays on the screen, and all that the screen is told and the program
is sent is about places on it. -/
theorem cursor_on_screen (scr : Screen) (canonical : Bool) (cs : List UInt8)
    (hcs : Along (Tty.processOutput scr) (Gentle scr) (.init canonical) cs) :
    scr.Shows (final (Tty.processOutput scr) (.init canonical) cs).cursorX
        (final (Tty.processOutput scr) (.init canonical) cs).cursorY ∧
      ∀ es ∈ answers (Tty.processOutput scr) (.init canonical) cs, ∀ e ∈ es, e.Visible scr := by
  have hinit : OnScreen scr (.init canonical) :=
    ⟨⟨scr.cols_pos, scr.rows_pos⟩, ⟨scr.cols_pos, scr.rows_pos⟩⟩
  have hstep : ∀ t c, OnScreen scr t → Gentle scr t c → Stays scr (t.processOutput scr c) :=
    fun t c ht hc => ht.processOutput hc
  refine ⟨(final_invariant_along (fun t c ht hc => (hstep t c ht hc).1) hinit hcs).cursor, ?_⟩
  exact answers_forall_along hstep hinit hcs

/-- A screen of 80 columns and 25 rows. -/
def vga : Screen := ⟨80, 25, by decide, by decide, by decide, by decide⟩

/-- The text `hi`, a new line, a move to the third column of the second row and one back. -/
theorem cursor_on_screen_moves :
    let cs : List UInt8 := [104, 105, 13, 10, 27, 91, 50, 59, 51, 72, 27, 91, 68]
    Along (Tty.processOutput vga) (Gentle vga) (.init true) cs ∧
      vga.Shows (final (Tty.processOutput vga) (.init true) cs).cursorX
          (final (Tty.processOutput vga) (.init true) cs).cursorY ∧
        ∀ es ∈ answers (Tty.processOutput vga) (.init true) cs, ∀ e ∈ es, e.Visible vga := by
  intro cs
  have hcs : Along (Tty.processOutput vga) (Gentle vga) (.init true) cs := by decide +kernel
  exact ⟨hcs, cursor_on_screen vga true cs hcs⟩

/-- After 25 line feeds the cursor is below the screen, and the report says so. -/
theorem line_feeds_leave_screen :
    let t := final (Tty.processOutput vga) (.init true) (.replicate 25 10)
    ¬ vga.Shows t.cursorX t.cursorY ∧
      answers (Tty.processOutput vga) t [27, 91, 54, 110] = [[], [], [], [.report 26 1]] := by
  decide +kernel

end Cursor

end Vespera.Ttys
