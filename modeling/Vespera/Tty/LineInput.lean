import Vespera.Tty.Terminal

/-! # The input side of a terminal

`tty_handle_input` and `tty_read` of `kernel/tty/tty.cpp`. In canonical mode one buffer holds the
line being typed, and the flag `line_ready` says that it is complete. A read takes the line and
empties the buffer.

What the reader should get is said by an `Editor` that sees the keys only. A short read, a key
typed before the last line was read, a line that fills the buffer and the sequences `CSI 2 J` and
`CSI 6 n` each make a difference. In every run without them successive reads return the lines of
the editor (`lines_delivered`).
-/

namespace Vespera.Ttys

open Lib

/-- The keys that `tty_handle_input` tells apart. -/
inductive KeyCode where
  | arrowUp | arrowDown | arrowRight | arrowLeft | home | «end» | insert | delete | pageUp | pageDown
  | f (n : Fin 12)
  | other
  deriving DecidableEq

/-- The table of special keys. -/
def KeyCode.seq : KeyCode → Option String
  | .arrowUp => "\x1b[A"
  | .arrowDown => "\x1b[B"
  | .arrowRight => "\x1b[C"
  | .arrowLeft => "\x1b[D"
  | .home => "\x1b[H"
  | .end => "\x1b[F"
  | .insert => "\x1b[2~"
  | .delete => "\x1b[3~"
  | .pageUp => "\x1b[5~"
  | .pageDown => "\x1b[6~"
  | .f n => "\x1b" ++ ["OP", "OQ", "OR", "OS", "[15~", "[17~", "[18~", "[19~", "[20~", "[21~",
      "[23~", "[24~"].get n
  | .other => none

structure KeyboardEvent where
  press : Bool
  shift : Bool
  keycode : KeyCode
  ascii : UInt8

/-- The key only scrolls the screen. -/
def KeyboardEvent.scrolls (ev : KeyboardEvent) : Bool :=
  ev.shift && (ev.keycode == .pageUp || ev.keycode == .pageDown)

/-- `tty_handle_input`. The interrupt key sends a signal and leaves the terminal alone. -/
def Tty.handleInput (t : Tty) (ev : KeyboardEvent) : Tty :=
  if !ev.press || ev.scrolls then t
  else
    match if t.canonical then none else ev.keycode.seq with
    | some seq =>
      let room := bufferSize - 1 - t.rawBuffer.length
      { t with rawBuffer := t.rawBuffer ++ seq.toUTF8.toList.take room }
    | none =>
      if ev.ascii = 0 then t
      else if t.canonical then
        if ev.ascii = 8 then
          if t.lineReady then t else { t with canonBuffer := t.canonBuffer.dropLast }
        else if ev.ascii = 3 ∨ t.lineReady ∨ t.canonBuffer.length ≥ bufferSize - 1 then t
        else
          { t with canonBuffer := t.canonBuffer ++ [ev.ascii], lineReady := ev.ascii == 10 }
      else if t.rawBuffer.length < bufferSize - 1 then
        { t with rawBuffer := t.rawBuffer ++ [ev.ascii] }
      else t

/-- `tty_read`, by a realm of the foreground group or another one; `none` while it waits. -/
def Tty.read (t : Tty) (foreground : Bool) (count : Nat) : Tty × Option (List UInt8) :=
  if !foreground then (t, none)
  else if t.canonical then
    if t.lineReady then
      ({ t with canonBuffer := [], lineReady := false }, some (t.canonBuffer.take count))
    else (t, none)
  else if t.rawBuffer = [] then (t, none)
  else ({ t with rawBuffer := t.rawBuffer.drop count }, some (t.rawBuffer.take count))

inductive TtyAct where
  | key (ev : KeyboardEvent)
  | output (c : UInt8)
  | read (foreground : Bool) (count : Nat)

def ttyStep (scr : Screen) (t : Tty) : TtyAct → Tty × Option (List UInt8)
  | .key ev => (t.handleInput ev, none)
  | .output c => ((t.processOutput scr c).1, none)
  | .read foreground count => t.read foreground count

/-! ## What is typed -/

/-- The character that a key types, or the backspace. -/
def KeyboardEvent.typed (ev : KeyboardEvent) : Option UInt8 :=
  if (!ev.press || ev.scrolls) ∨ ev.ascii = 0 ∨ ev.ascii = 3 then none else some ev.ascii

/-- The lines that were typed, and the one being typed. -/
structure Editor where
  lines : List (List UInt8)
  current : List UInt8

/-- A key. Of a line that does not fit the buffer with its end the rest is cut. -/
def Editor.type (e : Editor) (ev : KeyboardEvent) : Editor :=
  match ev.typed with
  | none => e
  | some c =>
    if c = 8 then { e with current := e.current.dropLast }
    else if c = 10 then ⟨e.lines ++ [e.current ++ [10]], []⟩
    else if e.current.length + 1 < bufferSize - 1 then { e with current := e.current ++ [c] }
    else e

/-- A terminal, what was typed on it and what was read from it. -/
structure Session where
  tty : Tty
  typed : Editor
  returned : List (List UInt8)

def Session.start : Session := ⟨.init true, ⟨[], []⟩, []⟩

def sessionStep (scr : Screen) (s : Session) (a : TtyAct) : Session × Option (List UInt8) :=
  let r := ttyStep scr s.tty a
  let typed := match a with
    | .key ev => s.typed.type ev
    | _ => s.typed
  (⟨r.1, typed, s.returned ++ r.2.toList⟩, r.2)

/-! ## Delivery -/

/-- The complete line in the buffer. -/
def Tty.waiting (t : Tty) : List (List UInt8) := if t.lineReady then [t.canonBuffer] else []

/-- The line being typed. -/
def Tty.line (t : Tty) : List UInt8 := if t.lineReady then [] else t.canonBuffer

/-- The byte ends a `CSI 2 J` that finds something in the buffer, or a `CSI 6 n`. -/
def Disturbs (t : Tty) (c : UInt8) : Prop :=
  t.escState = .csiReceived ∧ t.escPrivateMode = false ∧
    (Char.ofNat c.toNat = 'J' ∧ t.pushParam.mode = 2 ∧ (t.canonBuffer ≠ [] ∨ t.lineReady = true) ∨
      Char.ofNat c.toNat = 'n' ∧ t.pushParam.p 0 0 = 6)

/-- Nothing is typed ahead or beyond the buffer, output does not touch the buffer, and a read has
room for the line. -/
def Orderly (s : Session) : TtyAct → Prop
  | .key ev => ∀ c ∈ ev.typed, c = 8 ∨ s.tty.lineReady = false ∧
      s.tty.canonBuffer.length + (if c = 10 then 0 else 1) < bufferSize - 1
  | .output c => ¬ Disturbs s.tty c
  | .read foreground count =>
    foreground = true → s.tty.lineReady = true → s.tty.canonBuffer.length ≤ count

instance (t : Tty) (c : UInt8) : Decidable (Disturbs t c) :=
  inferInstanceAs (Decidable (_ ∧ _ ∧ (_ ∧ _ ∧ _ ∨ _ ∧ _)))

instance (s : Session) : (a : TtyAct) → Decidable (Orderly s a)
  | .key _ => inferInstanceAs (Decidable (∀ _ ∈ _, _))
  | .output _ => inferInstanceAs (Decidable (¬ _))
  | .read .. => inferInstanceAs (Decidable (_ → _ → _))

/-- The input side is as before. -/
structure SameInput (t t' : Tty) : Prop where
  canonBuffer : t'.canonBuffer = t.canonBuffer
  lineReady : t'.lineReady = t.lineReady
  canonical : t'.canonical = t.canonical

variable {scr : Screen} {t : Tty} {s : Session}

theorem sameInput_plain {c : UInt8} : SameInput t (t.plain scr c).1 := by
  unfold Tty.plain
  dsimp only
  split_ifs
  all_goals first | exact ⟨rfl, rfl, rfl⟩ | skip
  split <;> exact ⟨rfl, rfl, rfl⟩

theorem sameInput_csi {c : Char} (hclear : c = 'J' → t.mode = 2 → t.canonBuffer = [] ∧
    t.lineReady = false) (hreport : c = 'n' → t.p 0 0 ≠ 6) : SameInput t (t.csi scr c).1 := by
  unfold Tty.csi
  split
  all_goals first | exact ⟨rfl, rfl, rfl⟩ | skip
  · split
    · -- the buffer is cleared, and was empty
      next hmode =>
      obtain ⟨hbuffer, hready⟩ := hclear rfl hmode
      exact ⟨hbuffer.symm, hready.symm, rfl⟩
    · exact ⟨rfl, rfl, rfl⟩
  · rw [if_neg (hreport rfl)]
    exact ⟨rfl, rfl, rfl⟩

theorem sameInput_processOutput {c : UInt8} (h : ¬ Disturbs t c) :
    SameInput t (t.processOutput scr c).1 := by
  obtain ⟨hpush, hprivate⟩ : SameInput t t.pushParam ∧
      t.pushParam.escPrivateMode = t.escPrivateMode := by
    unfold Tty.pushParam
    split <;> exact ⟨⟨rfl, rfl, rfl⟩, rfl⟩
  unfold Tty.processOutput
  split
  · exact sameInput_plain
  · split <;> exact ⟨rfl, rfl, rfl⟩
  next hstate =>
  split
  · exact ⟨rfl, rfl, rfl⟩
  split
  · exact ⟨rfl, rfl, rfl⟩
  split
  · exact { hpush with }
  dsimp only
  split
  · exact { hpush with }
  next hpublic =>
  -- the last byte of a sequence, which is none of the two
  rw [hprivate, Bool.not_eq_true] at hpublic
  have hcsi : SameInput t.pushParam (t.pushParam.csi scr (.ofNat c.toNat)).1 := by
    apply sameInput_csi
    · intro hc hmode
      rw [hpush.canonBuffer, hpush.lineReady]
      by_contra hne
      refine h ⟨hstate, hpublic, .inl ⟨hc, hmode, ?_⟩⟩
      rw [← Bool.not_eq_true] at hne
      exact not_and_or.mp hne |>.imp_right not_not.mp
    · exact fun hc hp => h ⟨hstate, hpublic, .inr ⟨hc, hp⟩⟩
  exact ⟨hcsi.1.trans hpush.1, hcsi.2.trans hpush.2, hcsi.3.trans hpush.3⟩

/-- What was returned and what waits to be read are the lines that were typed, and the rest of the
buffer is the line being typed. -/
structure Delivers (s : Session) : Prop where
  canonical : s.tty.canonical = true
  lines : s.returned ++ s.tty.waiting = s.typed.lines
  current : s.tty.line = s.typed.current

theorem Delivers.key (h : Delivers s) {ev : KeyboardEvent} (hev : Orderly s (.key ev)) :
    Delivers (sessionStep scr s (.key ev)).1 := by
  have hstep : (sessionStep scr s (.key ev)).1 =
      ⟨s.tty.handleInput ev, s.typed.type ev, s.returned⟩ := by
    simp [sessionStep, ttyStep]
  rw [hstep, Tty.handleInput, Editor.type]
  simp only [h.canonical, if_true]
  cases htyped : ev.typed with
  | none =>
    -- a key that types nothing
    rw [KeyboardEvent.typed, ite_eq_left_iff] at htyped
    rcases Classical.not_not.mp fun hne => nomatch htyped hne with hgo | hgo | hgo
    all_goals simp [hgo, h]
  | some c =>
    have hc := hev c htyped
    rw [KeyboardEvent.typed] at htyped
    split at htyped
    · cases htyped
    next hgo =>
    rw [not_or, not_or] at hgo
    obtain rfl : ev.ascii = c := Option.some.inj htyped
    dsimp only
    rw [if_neg hgo.1, if_neg hgo.2.1]
    obtain ⟨hlines, hcurrent⟩ := And.intro h.lines h.current
    unfold Tty.waiting at hlines
    unfold Tty.line at hcurrent
    by_cases hback : ev.ascii = 8
    · rw [if_pos hback, if_pos hback]
      -- nothing is being typed while a line waits
      cases hready : s.tty.lineReady
      all_goals
        rw [hready] at hlines hcurrent
        refine ⟨by simp [h.canonical], ?_, ?_⟩
        · simpa [Tty.waiting, hready] using hlines
        · simp [Tty.line, hready, ← hcurrent]
    obtain ⟨hready, hroom⟩ := hc.resolve_left hback
    rw [hready] at hlines hcurrent
    simp only [Bool.false_eq_true, if_false] at hlines hcurrent
    rw [if_neg hback, if_neg hback, if_neg (by simp [hgo.2.2, hready]; omega), ← hcurrent]
    by_cases hend : ev.ascii = 10
    · rw [if_pos hend, hend]
      exact ⟨rfl, by simp [Tty.waiting, ← hlines], rfl⟩
    rw [if_neg hend] at hroom ⊢
    rw [if_pos hroom]
    have hno : (ev.ascii == 10) = false := by simpa using hend
    simp only [hno]
    exact ⟨rfl, hlines, rfl⟩

theorem Delivers.output (h : Delivers s) {c : UInt8} (hc : Orderly s (.output c)) :
    Delivers (sessionStep scr s (.output c)).1 := by
  have hsame : SameInput s.tty (s.tty.processOutput scr c).1 := sameInput_processOutput hc
  refine ⟨hsame.canonical.trans h.canonical, ?_, ?_⟩
  · simp only [sessionStep, ttyStep, Tty.waiting, hsame.canonBuffer, hsame.lineReady]
    rw [Option.toList_none, List.append_nil]
    exact h.lines
  · simp only [sessionStep, ttyStep, Tty.line, hsame.canonBuffer, hsame.lineReady]
    exact h.current

theorem Delivers.read (h : Delivers s) {foreground : Bool} {count : Nat}
    (hread : Orderly s (.read foreground count)) :
    Delivers (sessionStep scr s (.read foreground count)).1 := by
  have hstay : Delivers ⟨s.tty, s.typed, s.returned ++ []⟩ := by
    rw [List.append_nil]
    exact h
  show Delivers ⟨(s.tty.read foreground count).1, s.typed,
    s.returned ++ (s.tty.read foreground count).2.toList⟩
  unfold Tty.read
  rw [if_pos h.canonical]
  split
  · exact hstay
  split
  · next hback hready =>
    obtain ⟨hlines, hcurrent⟩ := And.intro h.lines h.current
    rw [Tty.waiting, if_pos hready] at hlines
    rw [Tty.line, if_pos hready] at hcurrent
    refine ⟨h.canonical, ?_, hcurrent⟩
    have hall := List.take_of_length_le (hread (by simpa using hback) hready)
    simp only [Tty.waiting, hall, Option.toList_some, Bool.false_eq_true, if_false, List.append_nil]
    exact hlines
  · exact hstay

/-- Step after step, successive reads return the lines that were typed, and what is in the buffer
is the rest. -/
theorem lines_delivered (scr : Screen) (as : List TtyAct)
    (has : Along (sessionStep scr) Orderly .start as) :
    let s := final (sessionStep scr) .start as
    s.returned ++ s.tty.waiting = s.typed.lines ∧ s.tty.line = s.typed.current := by
  have hstep : ∀ s a, Delivers s → Orderly s a → Delivers (sessionStep scr s a).1 := by
    intro s a hs ha
    cases a with
    | key ev => exact hs.key ha
    | output c => exact hs.output ha
    | read foreground count => exact hs.read ha
  have hall := final_invariant_along hstep ⟨rfl, rfl, rfl⟩ has
  exact ⟨hall.lines, hall.current⟩

/-- The lines `hi` and `a`, of which the first is read before the second is typed; one key is taken
back. -/
theorem lines_delivered_two :
    let key (c : UInt8) : TtyAct := .key ⟨true, false, .other, c⟩
    let as := [key 104, key 105, .output 62, key 10, .read true 80, key 98, key 8, key 97, key 10]
    let s := final (sessionStep vga) .start as
    Along (sessionStep vga) Orderly .start as ∧
      s.returned ++ s.tty.waiting = s.typed.lines ∧ s.tty.line = s.typed.current := by
  intro key as s
  have has : Along (sessionStep vga) Orderly .start as := by decide +kernel
  exact ⟨has, lines_delivered vga as has⟩

/-- The line `hi` is read with room for one byte. The rest is gone. -/
theorem short_read_loses_line :
    let key (c : UInt8) : TtyAct := .key ⟨true, false, .other, c⟩
    let s := final (sessionStep vga) .start [key 104, key 105, key 10, .read true 1, .read true 80]
    s.returned = [[104]] ∧ s.tty.canonBuffer = [] ∧ s.typed.lines = [[104, 105, 10]] := by
  decide +kernel

end Vespera.Ttys
