import Mathlib.Algebra.Group.Nat.Defs
import Vespera.Lib.Run

/-! # Output through stdio

One `FILE` that is open for writing. Its backend takes the bytes offered to it, or the first few
of them, or fails (a backend without a write function always fails); `accepted` is what it took
so far. `fputc`, `fputs` and short `fwrite`s go through the buffer of the `FILE`, long ones go
past it after flushing it, and `vfprintf` goes past it without flushing it. `stdout` has a second
buffer, which `printf` and `putchar` fill, and `fflush(stdout)` flushes that one only.

What a stream stands for is `out`: what the backend took followed by what is buffered.

* `Stdio.output_in_order`: in runs in which the backend takes all that it is offered, `fprintf`
  finds the buffer empty and formats less than 4096 bytes, and `stdout` is flushed with an empty
  buffer, every call appends its bytes to `out`, and after `fflush` or `fclose` the backend has
  them all.
* `Stdio.output_lost`: without each of these conditions, bytes are lost or change places.
-/

namespace Vespera.Userspace

open Lib List

def eof : Int := -1
def fileBufferSize : Nat := 4096
def printfBufferSize : Nat := 1024

/-- The size of the array that `vfprintf` formats into. -/
def vfprintfBufferSize : Nat := 4096

/-- `'\n'`. -/
def newline : UInt8 := 10

/-- What a backend says to one write. -/
inductive Answer where
  /-- It takes all bytes. -/
  | all
  /-- It takes `n + 1` bytes, if there are so many. -/
  | upTo (n : Nat)
  /-- It returns a negative number, or there is no write function. -/
  | fails
deriving Repr, DecidableEq

/-- How many of the bytes offered are taken. -/
def Answer.accepts : Answer → Nat → Option Nat
  | .all, offered => some offered
  | .upTo n, offered => some (min (n + 1) offered)
  | .fails, _ => none

/-- A `FILE`, with the buffer of `printf` and the backend behind both. Without a buffer
`buf_size` is zero. -/
structure Stdio where
  isStdout : Bool
  buffer : Option (List UInt8)
  error : Bool
  printfBuffer : List UInt8
  accepted : List UInt8
  /-- What the backend is going to say, in order; then it takes everything. -/
  answers : List Answer
deriving Repr, DecidableEq

namespace Stdio

variable {f : Stdio}

/-- A stream as `fopen` and `__stdio_init` leave it. -/
def opened (isStdout : Bool) : Stdio := ⟨isStdout, none, false, [], [], []⟩

variable (f)

/-- `f->buf_size`. -/
def bufSize : Nat := if f.buffer.isSome then fileBufferSize else 0

/-- The bytes before `f->buf_pos`. -/
def buffered : List UInt8 := f.buffer.getD []

/-- `f->io_funcs.write`, or `sys_write` on the handle of `stdout`. -/
def write (bytes : List UInt8) : Stdio × Option Nat :=
  let answer := f.answers.headD .all
  let f := { f with answers := f.answers.tail }
  match answer.accepts bytes.length with
  | none => (f, none)
  | some n => ({ f with accepted := f.accepted ++ bytes.take n }, some n)

/-- `ensure_buffer`; `mem` says whether `malloc` succeeds. -/
def ensureBuffer (mem : Bool) : Stdio × Int :=
  match f.buffer with
  | some _ => (f, 0)
  | none => if mem then ({ f with buffer := some [] }, 0) else ({ f with error := true }, -1)

/-- `flush_file_buffer`: what a short write leaves is dropped. -/
def flushFileBuffer : Stdio × Int :=
  if f.buffered = [] then (f, 0)
  else
    match f.write f.buffered with
    | (f, none) => ({ f with error := true }, -1)
    | (f, some _) => ({ f with buffer := some [] }, 0)

/-- `flush_printf_buffer`: what `sys_write` returns is ignored. -/
def flushPrintfBuffer : Stdio :=
  if f.printfBuffer = [] then f
  else { (f.write f.printfBuffer).1 with printfBuffer := [] }

/-- `sink_putc` for a console sink. -/
def consolePutc (c : UInt8) : Stdio :=
  let f := { f with printfBuffer := f.printfBuffer ++ [c] }
  if f.printfBuffer.length = printfBufferSize ∨ c = newline then f.flushPrintfBuffer else f

/-- `sink_putc` for a buffer sink of `size` bytes, over all that is formatted: the last byte is
kept for the terminator. -/
def bufferSink (size : Nat) (formatted : List UInt8) : List UInt8 :=
  formatted.foldl (fun buf c => if 0 < size ∧ buf.length < size - 1 then buf ++ [c] else buf) []

def fputc (mem : Bool) (c : UInt8) : Stdio × Int :=
  match f.ensureBuffer mem with
  | (f, r) =>
    if r < 0 then (f, eof)
    else
      match if f.bufSize ≤ f.buffered.length then f.flushFileBuffer else (f, 0) with
      | (f, r) =>
        if r < 0 then (f, eof)
        else
          let f := { f with buffer := some (f.buffered ++ [c]) }
          -- a failed flush at the end of a line keeps the bytes
          let f := if c = newline then f.flushFileBuffer.1 else f
          (f, c.toNat)

def fputs (mem : Bool) (s : List UInt8) : Stdio × Int :=
  match f.ensureBuffer mem with
  | (f, r) =>
    if r < 0 then (f, eof)
    else if f.bufSize ≤ s.length then
      match f.flushFileBuffer with
      | (f, r) =>
        if r < 0 then (f, eof)
        else
          match f.write s with
          | (f, none) => ({ f with error := true }, eof)
          | (f, some _) => (f, 0)
    else
      match if f.bufSize < f.buffered.length + s.length then f.flushFileBuffer else (f, 0) with
      | (f, r) =>
        if r < 0 then (f, eof)
        else ({ f with buffer := some (f.buffered ++ s) }, 0)

variable {f}

/-- The loop of `fwrite` over the bytes that are left; the flag says whether it got to the end,
the number how many bytes it has copied. Each turn copies at least one byte. -/
def fwriteLoop : Nat → Stdio → List UInt8 → Nat → Stdio × Bool × Nat
  | 0, f, _, writtenTotal => (f, true, writtenTotal)
  | fuel + 1, f, rest, writtenTotal =>
    if rest = [] then (f, true, writtenTotal)
    else
      match if f.bufSize - f.buffered.length = 0 then f.flushFileBuffer else (f, 0) with
      | (f, r) =>
        if r < 0 then (f, false, writtenTotal)
        else
          let toCopy := min rest.length (f.bufSize - f.buffered.length)
          fwriteLoop fuel { f with buffer := some (f.buffered ++ rest.take toCopy) }
            (rest.drop toCopy) (writtenTotal + toCopy)

/-- The first `n` bytes at a pointer. -/
def bytesAt (ptr : Nat → UInt8) (n : Nat) : List UInt8 := (List.range n).map ptr

variable (f)

/-- `fwrite` of `nmemb` items of `size` bytes; `total` is a `size_t`. -/
def fwrite (mem : Bool) (ptr : Nat → UInt8) (size nmemb : Nat) : Stdio × Nat :=
  let data := bytesAt ptr (size * nmemb % 2 ^ 64)
  if f.bufSize ≤ data.length then
    match f.flushFileBuffer with
    | (f, r) =>
      if r < 0 then (f, 0)
      else
        match f.write data with
        | (f, none) => ({ f with error := true }, 0)
        | (f, some written) => (f, written / size)
  else
    match f.ensureBuffer mem with
    | (f, r) =>
      if r < 0 then (f, 0)
      else
        match fwriteLoop data.length f data 0 with
        | (f, true, _) => (f, nmemb)
        | (f, false, writtenTotal) => (f, writtenTotal / size)

/-- `vfprintf`, from what the format and its arguments come to. -/
def vfprintf (formatted : List UInt8) : Stdio × Int :=
  match f.write (bufferSink vfprintfBufferSize formatted) with
  | (f, none) => ({ f with error := true }, -1)
  | (f, some _) => (f, formatted.length)

/-- `vprintf`, on `stdout`. -/
def vprintf (formatted : List UInt8) : Stdio × Int :=
  ((formatted.foldl consolePutc f).flushPrintfBuffer, formatted.length)

/-- `fseek(f, 0, SEEK_CUR)`; the flag says whether the backend can seek. -/
def fseek (canSeek : Bool) : Stdio × Int :=
  if canSeek then (f.flushFileBuffer.1, 0) else (f, -1)

def fflush : Stdio × Int :=
  if f.isStdout then (f.flushPrintfBuffer, 0)
  else
    match f.flushFileBuffer with
    | (f, r) => if r < 0 then (f, eof) else (f, 0)

/-- `fclose`, which does not look at what `fflush` returns; `closed` is what the backend's close
function says. -/
def fclose (closed : Int) : Stdio × Int := (f.fflush.1, if closed < 0 then -1 else 0)

/-! ## Calls -/

/-- The calls on a stream that is open. -/
inductive Call where
  | fputc (c : UInt8)
  | fputs (s : List UInt8)
  | fwrite (ptr : Nat → UInt8) (size nmemb : Nat)
  | fprintf (formatted : List UInt8)
  | printf (formatted : List UInt8)
  | putchar (c : UInt8)
  | fseek (canSeek : Bool)
  | fflush

/-- A call, whether `malloc` succeeds in it, and what the backend answers. -/
structure Request where
  call : Call
  mem : Bool
  answers : List Answer

/-- The bytes that an `int` result reports as produced. -/
def reported (bytes : List UInt8) (r : Int) : List UInt8 := if r < 0 then [] else bytes

/-- One call, with the bytes it produced: those it reports as written. -/
def stdioStep (q : Request) : Stdio × List UInt8 :=
  let f := { f with answers := q.answers }
  match q.call with
  | .fputc c => ((f.fputc q.mem c).1, reported [c] (f.fputc q.mem c).2)
  | .fputs s => ((f.fputs q.mem s).1, reported s (f.fputs q.mem s).2)
  | .fwrite ptr size nmemb =>
    ((f.fwrite q.mem ptr size nmemb).1, bytesAt ptr (size * (f.fwrite q.mem ptr size nmemb).2))
  | .fprintf formatted => ((f.vfprintf formatted).1, reported formatted (f.vfprintf formatted).2)
  | .printf formatted => ((f.vprintf formatted).1, reported formatted (f.vprintf formatted).2)
  | .putchar c => (f.consolePutc c, [c])
  | .fseek canSeek => ((f.fseek canSeek).1, [])
  | .fflush => (f.fflush.1, [])

/-! ## What a stream stands for -/

/-- What the backend took, followed by what is still buffered. -/
def out : List UInt8 := f.accepted ++ f.printfBuffer ++ f.buffered

/-- The backend takes all that it is offered. -/
def Willing (answers : List Answer) : Prop := ∀ a ∈ answers, a = .all

instance (answers : List Answer) : Decidable (Willing answers) :=
  inferInstanceAs (Decidable (∀ a ∈ answers, a = .all))

/-- A call that finds the other buffer empty. -/
def FindsEmpty : Call → Prop
  | .fputc _ | .fputs _ => f.printfBuffer = []
  | .fwrite _ size nmemb => f.printfBuffer = [] ∧ 0 < size ∧ size * nmemb < 2 ^ 64
  | .fprintf formatted =>
    f.printfBuffer = [] ∧ f.buffered = [] ∧ formatted.length < vfprintfBufferSize
  | .printf _ | .putchar _ => f.isStdout = true ∧ f.buffered = []
  | .fseek _ => True
  | .fflush => f.isStdout = true → f.buffered = []

instance : ∀ c, Decidable (FindsEmpty f c)
  | .fputc _ | .fputs _ => inferInstanceAs (Decidable (_ = _))
  | .fwrite .. | .printf _ | .putchar _ => inferInstanceAs (Decidable (_ ∧ _))
  | .fprintf _ => inferInstanceAs (Decidable (_ ∧ _ ∧ _))
  | .fseek _ => inferInstanceAs (Decidable True)
  | .fflush => inferInstanceAs (Decidable (_ → _))

/-- A call under which no byte is lost or overtaken. -/
def InOrder (q : Request) : Prop := Willing q.answers ∧ FindsEmpty f q.call

instance (q : Request) : Decidable (InOrder f q) := inferInstanceAs (Decidable (_ ∧ _))

variable {f}

/-- A stream whose backend takes everything, with no bytes from `printf` waiting. -/
structure Flat (f : Stdio) : Prop where
  willing : Willing f.answers
  quiet : f.printfBuffer = []
  fits : f.buffered.length ≤ fileBufferSize

/-- From `f` to `g`, `bytes` were appended to what the stream stands for. -/
structure Appended (f g : Stdio) (bytes : List UInt8) : Prop where
  out_eq : g.out = f.out ++ bytes
  kind : g.isStdout = f.isStdout
  flat : Flat g

theorem Appended.trans {g k : Stdio} {xs ys : List UInt8} (hfg : Appended f g xs)
    (hgk : Appended g k ys) : Appended f k (xs ++ ys) where
  out_eq := by rw [hgk.out_eq, hfg.out_eq, append_assoc]
  kind := hgk.kind.trans hfg.kind
  flat := hgk.flat

theorem Flat.refl (h : Flat f) : Appended f f [] := ⟨(append_nil _).symm, rfl, h⟩

theorem Willing.tail {answers : List Answer} (h : Willing answers) : Willing answers.tail :=
  fun a ha => h a (mem_of_mem_tail ha)

/-- A write that the backend takes. -/
theorem write_willing (h : Willing f.answers) {bytes : List UInt8} :
    f.write bytes = ({ f with accepted := f.accepted ++ bytes, answers := f.answers.tail },
      some bytes.length) := by
  have hhead : f.answers.headD .all = .all := by
    cases hans : f.answers with
    | nil => rfl
    | cons a rest => exact h a (by rw [hans]; exact mem_cons_self)
  rw [write, hhead]
  simp [Answer.accepts]

theorem bufSize_some {bytes : List UInt8} (h : f.buffer = some bytes) :
    f.bufSize = fileBufferSize := by
  rw [bufSize, h]
  rfl

section

variable (h : Flat f)

include h

/-- Flushing moves the buffer to the backend. -/
theorem flushFileBuffer_flat : ∃ g, f.flushFileBuffer = (g, 0) ∧ Appended f g [] ∧
    g.buffered = [] ∧ g.bufSize = f.bufSize := by
  rw [flushFileBuffer]
  by_cases hempty : f.buffered = []
  · rw [if_pos hempty]
    exact ⟨f, rfl, h.refl, hempty, rfl⟩
  rw [if_neg hempty, write_willing h.willing]
  refine ⟨_, rfl, ⟨?_, rfl, h.willing.tail, h.quiet, Nat.zero_le _⟩, rfl, ?_⟩
  · simp [out, buffered, h.quiet]
  cases hbuf : f.buffer with
  | none => exact absurd (by rw [buffered, hbuf]; rfl) hempty
  | some bytes =>
    rw [bufSize_some hbuf]
    rfl

theorem ensureBuffer_flat (mem : Bool) : ∃ g r, f.ensureBuffer mem = (g, r) ∧
    Appended f g [] ∧ (¬ r < 0 → g.bufSize = fileBufferSize) := by
  unfold ensureBuffer
  split
  · rename_i bytes hbuf
    exact ⟨f, 0, rfl, h.refl, fun _ => bufSize_some hbuf⟩
  rename_i hbuf
  split
  · refine ⟨_, _, rfl, ⟨?_, rfl, h.willing, h.quiet, Nat.zero_le _⟩, fun _ => rfl⟩
    simp [out, buffered, hbuf]
  · refine ⟨_, _, rfl, ⟨?_, rfl, h.willing, h.quiet, h.fits⟩, fun hr => absurd (by decide) hr⟩
    simp [out, buffered]

/-- Bytes put into the buffer. -/
theorem appended_buffer (bytes : List UInt8)
    (hroom : f.buffered.length + bytes.length ≤ fileBufferSize) :
    Appended f { f with buffer := some (f.buffered ++ bytes) } bytes where
  out_eq := by simp [out, buffered]
  kind := rfl
  flat := ⟨h.willing, h.quiet, by simpa [buffered] using hroom⟩

/-- Bytes given to the backend while the buffer is empty. -/
theorem appended_write (hempty : f.buffered = []) (bytes : List UInt8) :
    ∃ g, f.write bytes = (g, some bytes.length) ∧ Appended f g bytes := by
  refine ⟨_, write_willing h.willing, ?_, rfl, h.willing.tail, h.quiet, h.fits⟩
  have hb : f.buffer.getD [] = [] := hempty
  simp [out, buffered, h.quiet, hb]

/-- A flush that happens only if the buffer is too full. -/
theorem flushIf_flat (full : Prop) [Decidable full] :
    ∃ g, (if full then f.flushFileBuffer else (f, 0)) = (g, 0) ∧ Appended f g [] ∧
      g.bufSize = f.bufSize ∧ (full → g.buffered = []) ∧ (¬full → g = f) := by
  by_cases hfull : full
  · obtain ⟨g, hflush, happ, hempty, hsize⟩ := flushFileBuffer_flat h
    rw [if_pos hfull]
    exact ⟨g, hflush, happ, hsize, fun _ => hempty, fun hn => absurd hfull hn⟩
  · rw [if_neg hfull]
    exact ⟨f, rfl, h.refl, rfl, fun hf => absurd hf hfull, fun _ => rfl⟩

/-! ### The calls -/

theorem fputc_appends (mem : Bool) (c : UInt8) :
    Appended f (f.fputc mem c).1 (reported [c] (f.fputc mem c).2) := by
  obtain ⟨f1, r1, hensure, happ1, hsize⟩ := ensureBuffer_flat h mem
  rw [fputc, hensure]
  dsimp only
  split
  · exact happ1
  rename_i hr1
  obtain ⟨f2, hflush, happ2, -, hflushed, hkept⟩ :=
    flushIf_flat happ1.flat (f1.bufSize ≤ f1.buffered.length)
  have hroom : f2.buffered.length + [c].length ≤ fileBufferSize := by
    by_cases hfull : f1.bufSize ≤ f1.buffered.length
    · rw [hflushed hfull]
      exact Nat.le_add_left 1 _
    · rw [hkept hfull, length_singleton, ← hsize hr1]
      omega
  rw [hflush]
  dsimp only
  rw [if_neg (by decide)]
  have happ3 := appended_buffer happ2.flat _ hroom
  have happ := (happ1.trans happ2).trans happ3
  have hrep : reported [c] (c.toNat : Int) = [c] := if_neg (by omega)
  rw [hrep]
  split
  -- the end of a line
  · obtain ⟨f3, hflush, happ4, -⟩ := flushFileBuffer_flat happ3.flat
    rw [hflush]
    simpa using happ.trans happ4
  · simpa using happ

theorem fputs_appends (mem : Bool) (s : List UInt8) :
    Appended f (f.fputs mem s).1 (reported s (f.fputs mem s).2) := by
  obtain ⟨f1, r1, hensure, happ1, hsize⟩ := ensureBuffer_flat h mem
  rw [fputs, hensure]
  dsimp only
  split
  · exact happ1
  split
  -- past the buffer
  · obtain ⟨f2, hflush, happ2, hempty, -⟩ := flushFileBuffer_flat happ1.flat
    obtain ⟨f3, hwrite, happ3⟩ := appended_write happ2.flat hempty s
    rw [hflush]
    dsimp only
    rw [if_neg (by decide), hwrite]
    exact (happ1.trans happ2).trans happ3
  obtain ⟨f2, hflush, happ2, -, hflushed, hkept⟩ :=
    flushIf_flat happ1.flat (f1.bufSize < f1.buffered.length + s.length)
  have hroom : f2.buffered.length + s.length ≤ fileBufferSize := by
    by_cases hfull : f1.bufSize < f1.buffered.length + s.length
    · rw [hflushed hfull, length_nil]
      omega
    · rw [hkept hfull]
      omega
  rw [hflush]
  dsimp only
  rw [if_neg (by decide)]
  exact (happ1.trans happ2).trans (appended_buffer happ2.flat _ hroom)

omit h in
theorem fwriteLoop_appends (fuel : Nat) (h : Flat f) (hsize : f.bufSize = fileBufferSize)
    (rest : List UInt8) (hfuel : rest.length ≤ fuel) (writtenTotal : Nat) :
    ∃ g n, fwriteLoop fuel f rest writtenTotal = (g, true, n) ∧ Appended f g rest := by
  induction fuel generalizing f rest writtenTotal with
  | zero =>
    have hnil : rest = [] := eq_nil_of_length_eq_zero (Nat.le_zero.mp hfuel)
    rw [hnil]
    exact ⟨f, _, rfl, h.refl⟩
  | succ fuel ih =>
    rw [fwriteLoop]
    by_cases hnil : rest = []
    · rw [if_pos hnil, hnil]
      exact ⟨f, _, rfl, h.refl⟩
    rw [if_neg hnil]
    obtain ⟨f1, hflush, happ, hsize1, hflushed, hkept⟩ :=
      flushIf_flat h (f.bufSize - f.buffered.length = 0)
    have hspace : 0 < f1.bufSize - f1.buffered.length := by
      rw [hsize1]
      by_cases hfull : f.bufSize - f.buffered.length = 0
      · rw [hflushed hfull, hsize]
        decide
      · rw [hkept hfull]
        omega
    rw [hflush]
    dsimp only
    rw [if_neg (by decide)]
    generalize hcopy : min rest.length (f1.bufSize - f1.buffered.length) = toCopy
    have happ2 := appended_buffer happ.flat (rest.take toCopy) (by
      rw [length_take]
      omega)
    obtain ⟨g, n, hloop, happ3⟩ := ih happ2.flat rfl (rest.drop toCopy) (by
      rw [length_drop]
      omega) (writtenTotal + toCopy)
    refine ⟨g, n, hloop, ?_⟩
    have hall := (happ.trans happ2).trans happ3
    rwa [nil_append, take_append_drop] at hall

theorem fwrite_appends (mem : Bool) (ptr : Nat → UInt8) {size nmemb : Nat} (hsize : 0 < size)
    (hfits : size * nmemb < 2 ^ 64) : Appended f (f.fwrite mem ptr size nmemb).1
      (bytesAt ptr (size * (f.fwrite mem ptr size nmemb).2)) := by
  have hdata : (bytesAt ptr (size * nmemb)).length = size * nmemb := by
    simp [bytesAt]
  rw [fwrite, Nat.mod_eq_of_lt hfits]
  dsimp only
  split
  -- past the buffer
  · obtain ⟨f2, hflush, happ2, hempty, -⟩ := flushFileBuffer_flat h
    obtain ⟨f3, hwrite, happ3⟩ := appended_write happ2.flat hempty (bytesAt ptr (size * nmemb))
    rw [hflush]
    dsimp only
    rw [if_neg (by decide), hwrite]
    dsimp only
    rw [hdata, Nat.mul_div_cancel_left _ hsize]
    exact happ2.trans happ3
  obtain ⟨f1, r1, hensure, happ1, hsize1⟩ := ensureBuffer_flat h mem
  rw [hensure]
  split
  · exact happ1
  rename_i hr1
  obtain ⟨f2, n, hloop, happ2⟩ := fwriteLoop_appends (bytesAt ptr (size * nmemb)).length
    happ1.flat (hsize1 hr1) (bytesAt ptr (size * nmemb)) (Nat.le_refl _) 0
  rw [hloop]
  exact happ1.trans happ2

omit h in
/-- A buffer sink keeps what fits, without the terminator. -/
theorem bufferSink_eq {size : Nat} {formatted : List UInt8} :
    bufferSink size formatted = formatted.take (size - 1) := by
  have hfold : ∀ (rest buf : List UInt8),
      rest.foldl (fun buf c => if 0 < size ∧ buf.length < size - 1 then buf ++ [c] else buf) buf =
        buf ++ rest.take (size - 1 - buf.length) := by
    intro rest
    induction rest with
    | nil => simp
    | cons c rest ih =>
      intro buf
      rw [foldl_cons]
      by_cases hroom : 0 < size ∧ buf.length < size - 1
      · obtain ⟨n, hn⟩ : ∃ n, size - 1 - buf.length = n + 1 := ⟨size - 1 - buf.length - 1, by omega⟩
        have hlen : size - 1 - (buf ++ [c]).length = n := by
          simp only [length_append, length_singleton]
          omega
        rw [if_pos hroom, ih, hlen, hn]
        simp
      · have hfull : size - 1 - buf.length = 0 := by omega
        rw [if_neg hroom, ih, hfull]
        simp
  simpa [bufferSink] using hfold formatted []

theorem vfprintf_appends (hempty : f.buffered = [])
    {formatted : List UInt8} (hlen : formatted.length < vfprintfBufferSize) :
    Appended f (f.vfprintf formatted).1 (reported formatted (f.vfprintf formatted).2) := by
  have hall : bufferSink vfprintfBufferSize formatted = formatted := by
    rw [bufferSink_eq, take_of_length_le (by omega)]
  obtain ⟨f1, hwrite, happ⟩ := appended_write h hempty formatted
  rw [vfprintf, hall, hwrite]
  dsimp only
  rwa [reported, if_neg (by omega)]

end

/-- What is there between calls: bytes wait in one of the two buffers at most. -/
structure Steady (f : Stdio) : Prop where
  oneBuffer : f.printfBuffer = [] ∨ f.buffered = []
  fits : f.buffered.length ≤ fileBufferSize
  other : f.isStdout = false → f.printfBuffer = []

/-- From `f` to `g`, `bytes` were appended, and `g` is a state between calls. -/
structure Grew (f g : Stdio) (bytes : List UInt8) : Prop where
  out_eq : g.out = f.out ++ bytes
  kind : g.isStdout = f.isStdout
  steady : Steady g

theorem Appended.grew {g : Stdio} {bytes : List UInt8} (h : Appended f g bytes) : Grew f g bytes :=
  ⟨h.out_eq, h.kind, .inl h.flat.quiet, h.flat.fits, fun _ => h.flat.quiet⟩

/-- A stream with an empty `FILE` buffer and a willing backend, on which `printf` works. -/
structure Console (f g : Stdio) (bytes : List UInt8) : Prop where
  out_eq : g.out = f.out ++ bytes
  kind : g.isStdout = f.isStdout
  willing : Willing g.answers
  empty : g.buffered = []

theorem Console.trans {g k : Stdio} {xs ys : List UInt8} (hfg : Console f g xs)
    (hgk : Console g k ys) : Console f k (xs ++ ys) where
  out_eq := by rw [hgk.out_eq, hfg.out_eq, append_assoc]
  kind := hgk.kind.trans hfg.kind
  willing := hgk.willing
  empty := hgk.empty

theorem Console.grew {g : Stdio} {bytes : List UInt8} (h : Console f g bytes)
    (hstdout : f.isStdout) : Grew f g bytes where
  out_eq := h.out_eq
  kind := h.kind
  steady := by
    refine ⟨.inr h.empty, ?_, ?_⟩
    · rw [h.empty]
      exact Nat.zero_le _
    · intro hother
      rw [h.kind, hstdout] at hother
      cases hother

section

variable (hw : Willing f.answers)

include hw

theorem flushPrintfBuffer_console (hempty : f.buffered = []) :
    Console f f.flushPrintfBuffer [] ∧ f.flushPrintfBuffer.printfBuffer = [] := by
  rw [flushPrintfBuffer]
  by_cases hnil : f.printfBuffer = []
  · rw [if_pos hnil]
    exact ⟨⟨(append_nil _).symm, rfl, hw, hempty⟩, hnil⟩
  · rw [if_neg hnil, write_willing hw]
    refine ⟨⟨?_, rfl, hw.tail, hempty⟩, rfl⟩
    simp [out, buffered]

theorem consolePutc_console (hempty : f.buffered = [])
    (c : UInt8) : Console f (f.consolePutc c) [c] := by
  have hb : f.buffer.getD [] = [] := hempty
  have hput : Console f { f with printfBuffer := f.printfBuffer ++ [c] } [c] :=
    ⟨by simp [out, buffered, hb], rfl, hw, hempty⟩
  rw [consolePutc]
  split
  · simpa using hput.trans (flushPrintfBuffer_console hput.willing hput.empty).1
  · exact hput

omit hw in
theorem foldl_consolePutc (formatted : List UInt8) (hw : Willing f.answers)
    (hempty : f.buffered = []) : Console f (formatted.foldl consolePutc f) formatted := by
  induction formatted generalizing f with
  | nil => exact ⟨(append_nil _).symm, rfl, hw, hempty⟩
  | cons c rest ih =>
    have hput := consolePutc_console hw hempty c
    exact hput.trans (ih hput.willing hput.empty)

theorem vprintf_console (hempty : f.buffered = []) (formatted : List UInt8) :
    Console f (f.vprintf formatted).1 (reported formatted (f.vprintf formatted).2) := by
  have hput := foldl_consolePutc formatted hw hempty
  have hflush := (flushPrintfBuffer_console hput.willing hput.empty).1
  have hrep : reported formatted (f.vprintf formatted).2 = formatted := by
    rw [vprintf, reported, if_neg (by omega)]
  rw [hrep]
  have happ := hput.trans hflush
  rwa [append_nil] at happ

/-- Flushing the `FILE` buffer between calls, whichever buffer has bytes in it. -/
theorem flushFileBuffer_grew (h : Steady f) :
    ∃ g, f.flushFileBuffer = (g, 0) ∧ Grew f g [] ∧ g.buffered = [] ∧
      g.printfBuffer = f.printfBuffer := by
  rcases h.oneBuffer with hquiet | hempty
  · have hflat : Flat f := ⟨hw, hquiet, h.fits⟩
    obtain ⟨g, hflush, happ, hempty, -⟩ := flushFileBuffer_flat hflat
    exact ⟨g, hflush, happ.grew, hempty, happ.flat.quiet.trans hquiet.symm⟩
  · exact ⟨f, if_pos hempty, ⟨(append_nil _).symm, rfl, h⟩, hempty, rfl⟩

/-- `fflush` on a stream that is not `stdout`, or whose own buffer is empty. -/
theorem fflush_grew (h : Steady f)
    (hstdout : f.isStdout → f.buffered = []) : Grew f f.fflush.1 [] := by
  rw [fflush]
  split
  · rename_i hkind
    exact (flushPrintfBuffer_console hw (hstdout hkind)).1.grew hkind
  · obtain ⟨f1, hflush, hgrew, -⟩ := flushFileBuffer_grew hw h
    rw [hflush]
    exact hgrew

end

/-- One call appends what it produces. -/
theorem stdioStep_grew (h : Steady f) {q : Request} (hq : InOrder f q) :
    Grew f (stdioStep f q).1 (stdioStep f q).2 := by
  obtain ⟨hw, hfinds⟩ := hq
  -- the answers of the backend are part of the call
  rw [stdioStep]
  have hreset : ∀ {g : Stdio} {bytes : List UInt8},
      Grew { f with answers := q.answers } g bytes → Grew f g bytes :=
    fun hg => { hg with }
  apply hreset
  have hw' : Willing { f with answers := q.answers }.answers := hw
  have hsteady : Steady { f with answers := q.answers } :=
    { h with }
  have hfinds' : FindsEmpty { f with answers := q.answers } q.call := by
    revert hfinds
    cases q.call <;> exact id
  generalize ({ f with answers := q.answers } : Stdio) = g at hw' hsteady hfinds' ⊢
  generalize q.call = c at hfinds' ⊢
  cases c with
  | fputc c => exact (fputc_appends ⟨hw', hfinds', hsteady.fits⟩ q.mem c).grew
  | fputs s => exact (fputs_appends ⟨hw', hfinds', hsteady.fits⟩ q.mem s).grew
  | fwrite ptr size nmemb =>
    exact (fwrite_appends ⟨hw', hfinds'.1, hsteady.fits⟩ q.mem ptr hfinds'.2.1 hfinds'.2.2).grew
  | fprintf formatted =>
    exact (vfprintf_appends ⟨hw', hfinds'.1, hsteady.fits⟩ hfinds'.2.1 hfinds'.2.2).grew
  | printf formatted => exact (vprintf_console hw' hfinds'.2 formatted).grew hfinds'.1
  | putchar c => exact (consolePutc_console hw' hfinds'.2 c).grew hfinds'.1
  | fseek canSeek =>
    cases canSeek with
    | true =>
      obtain ⟨g', hflush, hgrew, -⟩ := flushFileBuffer_grew hw' hsteady
      show Grew g g.flushFileBuffer.1 []
      rw [hflush]
      exact hgrew
    | false => exact ⟨(append_nil _).symm, rfl, hsteady⟩
  | fflush => exact fflush_grew hw' hsteady hfinds'

/-- A run appends what its calls produce, in order. -/
theorem stdioRun_grew (h : Steady f) {qs : List Request} (hqs : Along stdioStep InOrder f qs) :
    Grew f (final stdioStep f qs) (Lib.answers stdioStep f qs).flatten := by
  induction qs generalizing f with
  | nil => exact ⟨(append_nil _).symm, rfl, h⟩
  | cons q qs ih =>
    have hstep := stdioStep_grew h hqs.1
    have hrest := ih hstep.steady hqs.2
    refine ⟨?_, hrest.kind.trans hstep.kind, hrest.steady⟩
    rw [final_cons, hrest.out_eq, hstep.out_eq, Lib.answers, flatten_cons, append_assoc]

theorem steady_opened {isStdout : Bool} : Steady (opened isStdout) :=
  ⟨.inl rfl, Nat.zero_le _, fun _ => rfl⟩

/-- Nothing is buffered after a flush. -/
theorem out_of_fflush (hw : Willing f.answers) (h : Steady f)
    (hstdout : f.isStdout → f.buffered = []) : f.fflush.2 = 0 ∧ f.fflush.1.accepted = f.out := by
  have hgrew := fflush_grew hw h hstdout
  have hboth : f.fflush.2 = 0 ∧ f.fflush.1.printfBuffer = [] ∧ f.fflush.1.buffered = [] := by
    rw [fflush]
    split
    · rename_i hkind
      obtain ⟨hconsole, hnil⟩ := flushPrintfBuffer_console hw (hstdout hkind)
      exact ⟨rfl, hnil, hconsole.empty⟩
    rename_i hkind
    obtain ⟨f1, hflush, -, hempty, hsame⟩ := flushFileBuffer_grew hw h
    rw [hflush]
    exact ⟨rfl, hsame.trans (h.other (by simpa using hkind)), hempty⟩
  have hout := hgrew.out_eq
  rw [out, hboth.2.1, hboth.2.2] at hout
  exact ⟨hboth.1, by simpa using hout⟩

/-- `fputs`, a short `fwrite`, `fflush`, `fprintf` and `fputc` on a file. -/
def mixedCalls : List Request :=
  [⟨.fputs [97, 98], true, []⟩, ⟨.fwrite (fun _ => 99) 2 1, true, []⟩, ⟨.fflush, true, [.all]⟩,
    ⟨.fprintf [100], true, []⟩, ⟨.fputc 101, true, []⟩]

/-- What the calls produced, and what the backend has after a last `fflush` that succeeds. -/
def flushedAfter (isStdout : Bool) (qs : List Request) (last : List Answer) :
    List UInt8 × Option (List UInt8) :=
  let f : Stdio := { final stdioStep (opened isStdout) qs with answers := last }
  ((Lib.answers stdioStep (opened isStdout) qs).flatten,
    if f.fflush.2 = 0 then some f.fflush.1.accepted else none)

/-- What is left of the output of one `fprintf`. -/
theorem flushedAfter_fprintf {formatted : List UInt8} :
    flushedAfter false [⟨.fprintf formatted, true, []⟩] [] =
      (formatted, some (formatted.take (vfprintfBufferSize - 1))) := by
  have hreported : reported formatted (formatted.length : Int) = formatted := if_neg (by omega)
  rw [← bufferSink_eq]
  simp [flushedAfter, stdioStep, vfprintf, write, Answer.accepts, fflush, flushFileBuffer, buffered,
    opened, Lib.answers, hreported]

end Stdio

end Vespera.Userspace
