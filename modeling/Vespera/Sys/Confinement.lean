import Vespera.Sys.Syscalls

/-! # Which calls keep to user memory

A call `Respects` the user range if it refuses every range among its arguments that
`is_user_range` does not accept, with an error and without an access to that range. No call
of `Syscalls.lean` looks at `is_user_range`, so a call respects it only if the caller does, or
if it fails for another reason before it comes to the buffer. `Confined` says exactly when.

Main results:

* `Guarded`: for every way through `sys_read`, when it fails, and that it accesses the buffer
  only if it does not fail;
* `respects_iff`: a call respects the user range if and only if it is confined;
* `confined_agree`: two kernels that differ in the kernel half only answer confined steps
  alike and again differ in the kernel half only.
-/

namespace Vespera.Sys

open Klib List Lib Ipc Realms MemProg Objects Scheduling Vfs

variable {n : Nat} {cfg : Config n} {k : Kernel cfg}

/-! ## The contract -/

/-- The ranges that a call's arguments name. -/
def Call.ranges : Call → List (Nat × Nat)
  | .read _ buf count | .write _ buf count => [(buf.toNat, count.toNat)]
  | .getresuid r e s | .getresgid r e s => [(r.toNat, 4), (e.toNat, 4), (s.toNat, 4)]
  | .futex uaddr op _ ts =>
    (uaddr.toNat, 4) ::
      if op.toNat % 256 = futexWait ∧ ts.toNat ≠ 0 then [(ts.toNat, 16)] else []

/-- Every range that is not a user range makes the call fail without touching it. -/
def Respects (k : Kernel cfg) (c : Call) : Prop :=
  ∀ r ∈ c.ranges, isUserRange r.1 r.2 = false →
    (k.call c).2.isError = true ∧ ∀ t ∈ (c.prog k.objects).touched k.view, ¬ Meets t r

/-! ## User ranges -/

theorem isUserRange_iff {addr len : Nat} : isUserRange addr len ↔
      addr ≠ 0 ∧ (len = 0 ∨ addr ≤ userAddrMax ∧ len ≤ userAddrMax - addr) := by
  unfold isUserRange
  split_ifs <;> simp_all

/-- A user range lies in the user half. -/
theorem le_userAddrMax_of_inRange {r : Nat × Nat} {b : Nat} (h : isUserRange r.1 r.2)
    (hb : InRange r b) : b ≤ userAddrMax := by
  obtain ⟨i, hi, rfl⟩ := hb
  obtain ⟨-, hzero | ⟨haddr, hlen⟩⟩ := isUserRange_iff.mp h
  · omega
  · have hsum : r.1 + i ≤ userAddrMax := by omega
    rw [Nat.mod_eq_of_lt (by simp only [userAddrMax, addressSpace] at *; omega)]
    exact hsum

/-- A range that is not empty meets every range that starts with it. -/
theorem meets_self {addr len len' : Nat} (h : len ≠ 0) (h' : len' ≠ 0) :
    Meets (addr, len) (addr, len') :=
  ⟨addr % addressSpace, ⟨0, Nat.pos_of_ne_zero h, rfl⟩, ⟨0, Nat.pos_of_ne_zero h', rfl⟩⟩

/-! ## When a read fails -/

/-- A call that fails exactly if `R`, and accesses `range` only, and not at all if it fails. -/
structure Guarded (p : MemProg (Objects cfg × Answer)) (R : Prop) (range : Nat × Nat) : Prop where
  touched : ∀ m, ∀ r ∈ p.touched m, Within r range
  refused : R → ∀ m, (p.result m).2.isError = true ∧ p.touched m = []
  accepted : ¬ R → ∀ m, (p.result m).2.isError = false

namespace Guarded

variable {p : MemProg (Objects cfg × Answer)} {R : Prop} {range : Nat × Nat}

/-- An error at once. -/
theorem error (o : Objects cfg) (e : Error) (hR : R) : Guarded (pure (o, .error e)) R range where
  touched m r hr := by simp at hr
  refused _ m := ⟨Answer.isError_error, rfl⟩
  accepted h := absurd hR h

/-- A change to the state and the answer afterwards that keeps errors errors. -/
theorem map (h : Guarded p R range) (f : Objects cfg × Answer → Objects cfg × Answer)
    (hf : ∀ r, (f r).2.isError = r.2.isError) : Guarded (p >>= fun r => pure (f r)) R range where
  touched m := by simpa using h.touched m
  refused hR m := by simpa [hf] using h.refused hR m
  accepted hR m := by simpa [hf] using h.accepted hR m

/-- The same reason to refuse, said differently. -/
theorem congr {R' : Prop} (h : Guarded p R range) (hR : R ↔ R') : Guarded p R' range where
  touched := h.touched
  refused hR' := h.refused (hR.mpr hR')
  accepted hR' := h.accepted fun h' => hR' (hR.mp h')

end Guarded

namespace Objects

variable {o : Objects cfg} {u : Fin n} {count buf : Nat}

section

variable (hcur : o.sched.getCurrentUnit = some u)

include hcur

/-- A unit that has nothing to do waits, unless it asked not to. -/
theorem waitOn_isError {q : WaitId} {blocking : Bool} :
    (o.waitOn q blocking).2.isError = !blocking := by
  cases blocking with
  | true => simp [waitOn, hcur]
  | false => simp [waitOn]

omit hcur in
theorem finish_moved {σ : Type} {q : WaitId} {blocking : Bool} {update : σ → Objects cfg} {s : σ}
    {k : Nat} : (o.finish q blocking update (.moved s k)).2.isError = false :=
  Answer.isError_ret_natCast

omit hcur in
/-- The three counters refuse short buffers, and to wait if they were asked not to. -/
theorem guarded_of_reads {σ : Type} {p : MemProg (Pass σ)} {size : Nat} {empty : Prop}
    {out : Nat} (h : Reads p size empty out count) (hcur : o.sched.getCurrentUnit = some u)
    {q : WaitId} {nonblock : Bool} {update : σ → Objects cfg} :
    Guarded (p >>= fun r => pure (o.finish q (!nonblock) update r))
      (count < size ∨ empty ∧ nonblock) (out, count) where
  touched m := by simpa using h.touched m
  refused hR m := by
    rcases hR with hshort | ⟨hempty, rfl⟩
    · rw [h.short hshort]
      exact ⟨Answer.isError_error, rfl⟩
    by_cases hshort : count < size
    · rw [h.short hshort]
      exact ⟨Answer.isError_error, rfl⟩
    · rw [h.wait hshort hempty]
      exact ⟨waitOn_isError hcur, rfl⟩
  accepted hR m := by
    have hlong : ¬ count < size := fun hshort => hR (.inl hshort)
    by_cases hempty : empty
    · have hblock : nonblock = false := by simpa [hempty, hlong] using hR
      subst hblock
      rw [h.wait hlong hempty]
      exact waitOn_isError hcur
    · obtain ⟨s, k, hmoved⟩ := h.moved hlong hempty m
      simp only [result_bind, result_pure, hmoved]
      exact finish_moved

/-- A channel refuses a reader only if it has nothing and the reader does not wait. -/
theorem recv_guarded (id : Nat) {out len : Nat}
    (hout : out ≠ 0) (hlen : len ≠ 0) (blocking : Bool) :
    Guarded (o.recv id out len blocking) ((o.channel id).Starved ∧ blocking = false)
      (out, len) where
  touched m := by simpa [recv] using Channel.recv_touched (o.channel id) out len m
  refused hR m := by
    rcases Channel.recv_cases (o.channel id) hout hlen m with ⟨-, hwait⟩ | ⟨hno, -⟩ | ⟨hno, -⟩
    · obtain ⟨-, rfl⟩ := hR
      rw [recv, hwait]
      exact ⟨waitOn_isError hcur, rfl⟩
    · exact absurd hR.1 hno
    · exact absurd hR.1 hno
  accepted hR m := by
    rcases Channel.recv_cases (o.channel id) hout hlen m with
      ⟨hstarved, hwait⟩ | ⟨-, hstay⟩ | ⟨-, c', k, hmoved⟩
    · have hblock : blocking := by simpa [hstarved] using hR
      subst hblock
      rw [recv, hwait]
      exact waitOn_isError hcur
    · rw [recv, hstay]
      rfl
    · simp only [recv, result_bind, result_pure, hmoved]
      exact finish_moved

omit hcur in
/-- `VFS::read` fails. -/
def NodeRefuses (o : Objects cfg) (node : Option Nat) (offset size flags : Nat) : Prop :=
  match node with
  | none => True
  | some id =>
    if (o.node id).type = .fifo then
      match (o.node id).fifoChannel with
      | none => True
      | some ch => (o.channel ch).Starved ∧ flags &&& oNonblock ≠ 0
    else match (o.node id).read with
      | .none => True
      | .file => (o.node id).type ≠ .file
      | .driver read => ∃ e, read offset size = .error e

omit hcur in
/-- Bytes that are stored at the start of the buffer and counted. -/
theorem store_guarded {size : Nat} {bs : List UInt8} {R : Prop}
    (hbs : bs.length ≤ size) (hR : ¬ R) :
    Guarded (do storeBytes buf bs; pure (o, .ret bs.length)) R (buf, size) where
  touched m r hr := by
    simp only [touched_bind, touched_storeBytes, touched_pure,
      append_nil, mem_cons, not_mem_nil, or_false] at hr
    subst hr
    exact ⟨Nat.le_refl _, Nat.add_le_add_left hbs buf⟩
  refused h := absurd h hR
  accepted _ m := Answer.isError_ret_natCast

theorem vfsRead_guarded (node : Option Nat)
    (offset : Nat) {size : Nat} (hbuf : buf ≠ 0) (hsize : size ≠ 0) (flags : Nat) :
    Guarded (o.vfsRead node offset size buf flags) (o.NodeRefuses node offset size flags)
      (buf, size) := by
  cases node with
  | none => exact .error o .inval trivial
  | some id =>
    by_cases hfifo : (o.node id).type = .fifo
    · -- a FIFO: its channel
      cases hch : (o.node id).fifoChannel with
      | none =>
        simp only [vfsRead, NodeRefuses, hfifo, hch, if_true]
        exact .error o .io trivial
      | some ch =>
        simp only [vfsRead, NodeRefuses, hfifo, hch, if_true]
        exact (recv_guarded hcur ch hbuf hsize _).congr (by simp)
    cases hread : (o.node id).read with
    | none =>
      simp only [vfsRead, NodeRefuses, hfifo, hread, if_false]
      exact .error o .noSys trivial
    | file =>
      simp only [vfsRead, NodeRefuses, hfifo, hread, if_false]
      split_ifs with htype hend
      · exact .error o .isDir htype
      · -- at the end of the file nothing is delivered, and that is no error
        exact ⟨fun m r hr => by simp at hr, fun h => absurd h htype, fun _ m => rfl⟩
      · exact store_guarded fileBytes_length_le htype
    | driver read =>
      simp only [vfsRead, NodeRefuses, hfifo, hread, if_false]
      cases hans : read offset size with
      | error e => exact .error o e ⟨e, rfl⟩
      | ok bs => exact store_guarded (length_take_le _ _) (by simp)

omit hcur in
/-- `sys_read` on a resource of a type fails. -/
def ResourceRefuses (o : Objects cfg) (type : HandleType) (resource : Option Nat) (count : Nat) :
    Prop :=
  match type, resource with
  | .device, some id | .fifo, some id | .file, some id =>
    let vh := o.vfsHandle id
    o.NodeRefuses vh.node (o.offsetOf vh).toNat count vh.openFlags
  | .pipe, some id => (o.endpoint id).isWriter = true
  | .socket, some id =>
    (o.socket id).connected = false ∨ ((o.socket id).endpoint.bind SocketEndpoint.rx) = none
  | .timerfd, some id =>
    count < 8 ∨ (o.timerfd id).expirations = 0 ∧ (o.timerfd id).nonblock = true
  | .signalfd, some id =>
    count < siginfoSize ∨
      o.signalsPending (o.signalfd id).owner &&& (o.signalfd id).mask = 0 ∧
        (o.signalfd id).nonblock = true
  | .eventfd, some id =>
    count < 8 ∨ (o.eventfd id).counter = 0 ∧ (o.eventfd id).nonblock = true
  | _, _ => True

omit hcur in
theorem advance_isError {off : Int} {vh : Nat} {r : Objects cfg × Answer} :
    (advance off vh r).2.isError = r.2.isError := by
  unfold advance
  split
  · split_ifs <;> rfl
  · rfl

variable (hbuf : buf ≠ 0) (hcount : count ≠ 0)

include hbuf hcount

theorem readFile_guarded {id : Nat} : Guarded (o.readFile id buf count)
      (o.NodeRefuses (o.vfsHandle id).node (o.offsetOf (o.vfsHandle id)).toNat count
        (o.vfsHandle id).openFlags) (buf, count) :=
  (vfsRead_guarded hcur _ _ hbuf hcount _).map _ fun _ => advance_isError

theorem readPipe_guarded {id : Nat} :
    Guarded (o.readPipe id buf count) ((o.endpoint id).isWriter) (buf, count) := by
  unfold readPipe
  dsimp only
  split_ifs with hwriter
  · exact .error o .badH hwriter
  have hrecv := recv_guarded hcur (o.endpoint id).channel hbuf hcount false
  refine ⟨fun m => by simpa using hrecv.touched m, fun h => absurd h hwriter, fun _ m => ?_⟩
  -- the only error of `recv` is the one that makes the call try again
  simp only [result_bind, result_pure, retry]
  split_ifs with hagain
  · rfl
  rcases Channel.recv_cases (o.channel (o.endpoint id).channel) hbuf hcount m with
    ⟨-, hwait⟩ | ⟨hno, -⟩ | ⟨hno, -⟩
  · rw [recv, hwait] at hagain
    exact absurd rfl hagain
  · exact hrecv.accepted (fun h => hno h.1) m
  · exact hrecv.accepted (fun h => hno h.1) m

theorem readSocket_guarded {id : Nat} : Guarded (o.readSocket id buf count)
      ((o.socket id).connected = false ∨ ((o.socket id).endpoint.bind SocketEndpoint.rx) = none)
      (buf, count) := by
  unfold readSocket
  dsimp only
  split
  · rename_i ep hconn hep
    cases hrx : ep.rx with
    | none => exact .error o .badH (.inr (by simp [hep, hrx]))
    | some ch =>
      exact (recv_guarded hcur ch hbuf hcount true).congr (by simp [hconn, hep, hrx])
  rename_i hno
  refine .error o .notConn ?_
  cases hconn : (o.socket id).connected with
  | false => exact .inl rfl
  | true =>
    cases hep : (o.socket id).endpoint with
    | none => exact .inr rfl
    | some ep => exact absurd hep (hno ep hconn)

/-- Every resource: `sys_read` fails exactly if it is refused. -/
theorem readResource_guarded (type : HandleType) (resource : Option Nat) :
    Guarded (o.readResource type resource buf count) (o.ResourceRefuses type resource count)
      (buf, count) := by
  cases resource with
  | none => cases type <;> exact .error o _ trivial
  | some id =>
    cases type with
    | device | fifo | file => exact readFile_guarded hcur hbuf hcount
    | pipe => exact readPipe_guarded hcur hbuf hcount
    | socket => exact readSocket_guarded hcur hbuf hcount
    | timerfd => exact guarded_of_reads (Timerfd.read_reads _ _ _) hcur
    | signalfd => exact guarded_of_reads (Signalfd.read_reads _ _ _ _) hcur
    | eventfd => exact guarded_of_reads (Eventfd.read_reads _ _ _) hcur
    | directory | channel | unit | realm | shm => exact .error o .badH trivial

end

/-- `sys_read` fails, whatever the buffer is. -/
def ReadRefused (o : Objects cfg) (hid : UInt64) (count : Nat) : Prop :=
  match o.resolveHandle hid capRead with
  | .error _ => True
  | .ok rh => o.ResourceRefuses rh.type rh.resource count

/-- A handle is resolved for a running unit only. -/
theorem current_of_resolveHandle {hid caps : UInt64} {rh : HandleEntry (Option Nat)}
    (h : o.resolveHandle hid caps = .ok rh) : ∃ u, o.sched.getCurrentUnit = some u := by
  unfold resolveHandle getCurrentRealm at h
  cases hcur : o.sched.getCurrentUnit with
  | none => simp [hcur] at h
  | some u => exact ⟨u, rfl⟩

theorem sysRead_guarded (o : Objects cfg) (hid : UInt64) (buf count : Nat) :
    Guarded (o.sysRead hid buf count) (buf = 0 ∨ count = 0 ∨ o.ReadRefused hid count)
      (buf, count) := by
  by_cases hnull : buf = 0 ∨ count = 0
  · rw [sysRead, if_pos hnull]
    exact .error o .inval (by tauto)
  rw [sysRead, if_neg hnull]
  obtain ⟨hbuf, hcount⟩ := not_or.mp hnull
  cases hres : o.resolveHandle hid capRead with
  | error e => exact .error o e (.inr (.inr (by simp [ReadRefused, hres])))
  | ok rh =>
    obtain ⟨u, hcur⟩ := current_of_resolveHandle hres
    exact (readResource_guarded hcur hbuf hcount rh.type rh.resource).congr
      (by simp [ReadRefused, hres, hbuf, hcount])

/-! ## What the other calls access -/

theorem send_touched (o : Objects cfg) (id data len : Nat) (blocking : Bool) (m : ByteMem) :
    ∀ r ∈ (o.send id data len blocking).touched m, Within r (data, len) := by
  simpa [send] using Channel.send_touched (o.channel id) data len m

theorem vfsWrite_touched {node : Option Nat} {offset size flags : Nat} {m : ByteMem} :
    ∀ r ∈ (o.vfsWrite node offset size buf flags).touched m, Within r (buf, size) := by
  intro r hr
  cases node with
  | none => simp [vfsWrite] at hr
  | some id =>
    by_cases hfifo : (o.node id).type = .fifo
    · simp only [vfsWrite, hfifo, if_true] at hr
      split at hr
      · simp at hr
      · exact send_touched o _ _ _ _ _ r hr
    cases hwrite : (o.node id).write with
    | none => simp [vfsWrite, hfifo, hwrite] at hr
    | file =>
      simp only [vfsWrite, hfifo, hwrite, if_false] at hr
      split_ifs at hr
      · simp at hr
      · simp at hr
      simp only [touched_bind, touched_loadBytes, touched_pure, append_nil, mem_singleton] at hr
      subst hr
      exact ⟨Nat.le_refl _, Nat.le_refl _⟩
    | driver write =>
      simp only [vfsWrite, hfifo, hwrite, if_false] at hr
      split_ifs at hr
      · simp at hr
      -- the driver's answer comes after the buffer was read
      simp only [touched_bind, touched_loadBytes, mem_append, mem_singleton] at hr
      rcases hr with rfl | hr
      · exact ⟨Nat.le_refl _, Nat.le_refl _⟩
      · split at hr <;> simp at hr

theorem writeResource_touched {type : HandleType} {resource : Option Nat} {m : ByteMem} :
    ∀ r ∈ (o.writeResource type resource buf count).touched m, Within r (buf, count) := by
  intro r hr
  cases resource with
  | none => cases type <;> simp [writeResource] at hr
  | some id =>
    cases type with
    | device | fifo | file =>
      simp only [writeResource, writeFileHandle, touched_bind, touched_pure, append_nil] at hr
      exact vfsWrite_touched r hr
    | pipe =>
      simp only [writeResource, writePipe] at hr
      split_ifs at hr
      · simp only [touched_bind, touched_pure, append_nil] at hr
        exact send_touched o _ _ _ _ m r hr
      · simp at hr
    | socket =>
      simp only [writeResource, writeSocket] at hr
      split at hr
      · split at hr
        · simp at hr
        · exact send_touched o _ _ _ _ m r hr
      · simp at hr
    | eventfd =>
      simp only [writeResource, writeEventfd, touched_bind, touched_pure, append_nil] at hr
      exact Eventfd.write_touched r hr
    | timerfd | signalfd | directory | channel | unit | realm | shm =>
      simp [writeResource] at hr

/-- `sys_write` accesses its buffer, and nothing else. -/
theorem sysWrite_touched (hid : UInt64) {m : ByteMem} :
    ∀ r ∈ (o.sysWrite hid buf count).touched m, Within r (buf, count) := by
  intro r hr
  unfold sysWrite at hr
  split_ifs at hr
  · simp at hr
  simp only [touched_bind, touched_loadBytes, result_loadBytes,
    memory_loadBytes, mem_append, mem_singleton] at hr
  rcases hr with rfl | rfl | hr
  · exact ⟨Nat.le_refl _, Nat.le_refl _⟩
  · exact ⟨Nat.le_refl _, Nat.le_refl _⟩
  · split at hr
    · simp at hr
    · exact writeResource_touched r hr

/-- It accesses all of it, whatever the handle is. -/
theorem sysWrite_touches (hid : UInt64) (hbuf : buf ≠ 0) (hcount : count ≠ 0) {m : ByteMem} :
    (buf, count) ∈ (o.sysWrite hid buf count).touched m := by
  simp [sysWrite, hbuf, hcount]

/-- `sys_getresuid` and `sys_getresgid` fail without a unit or with a null pointer, and
otherwise store to all three pointers. -/
theorem sysGetres_cases (o : Objects cfg) (kind : Security.IdKind) (r e s : Nat) (m : ByteMem) :
    ((r = 0 ∨ e = 0 ∨ s = 0 ∨ o.getCurrentRealm = none) ∧
      ((o.sysGetres kind r e s).result m).2.isError ∧ (o.sysGetres kind r e s).touched m = []) ∨
    (¬ (r = 0 ∨ e = 0 ∨ s = 0 ∨ o.getCurrentRealm = none) ∧
      ((o.sysGetres kind r e s).result m).2.isError = false ∧
      (o.sysGetres kind r e s).touched m = [(r, 4), (e, 4), (s, 4)]) := by
  by_cases hnull : r = 0 ∨ e = 0 ∨ s = 0
  · refine .inl ⟨by tauto, ?_⟩
    simp [sysGetres, hnull]
  cases hcur : o.getCurrentRealm with
  | none =>
    refine .inl ⟨by simp, ?_⟩
    simp [sysGetres, hnull, currentCredentials, hcur]
  | some realm =>
    refine .inr ⟨by simpa using hnull, ?_⟩
    simp only [sysGetres, hnull, currentCredentials, hcur, if_false]
    exact ⟨rfl, by simp⟩

/-- `FUTEX_WAIT` on an aligned address: the word is read, and then the timeout if there is one
and the word has the expected value. -/
theorem sysFutex_wait (o : Objects cfg) {uaddr arg1 : Nat} (arg2 ts : Nat)
    (halign : ¬ (uaddr = 0 ∨ uaddr % 4 ≠ 0)) (hop : arg1 % 256 = futexWait) (m : ByteMem) :
    (((o.sysFutex uaddr arg1 arg2 ts).result m).2.isError ↔
      ofBytes (readBytes m uaddr 4) ≠ arg2 % 2 ^ 32) ∧ (o.sysFutex uaddr arg1 arg2 ts).touched m =
      (uaddr, 4) :: if ofBytes (readBytes m uaddr 4) = arg2 % 2 ^ 32 ∧ ts ≠ 0 then [(ts, 16)]
        else [] := by
  simp only [sysFutex, halign, hop, if_true, if_false, result_bind, touched_bind,
    result_loadBytes, memory_loadBytes, touched_loadBytes]
  generalize arg2 % 2 ^ 32 = val
  by_cases hval : ofBytes (readBytes m uaddr 4) = val
  · by_cases hts : ts = 0
    · simp [hval, hts, futexBlock]
    · simp [hval, hts, futexBlock]
  · simp [hval]

/-- The other operations access nothing. They fail if the address or the operation is bad. -/
theorem sysFutex_other (o : Objects cfg) {uaddr arg1 : Nat} (arg2 ts : Nat)
    (h : (uaddr = 0 ∨ uaddr % 4 ≠ 0) ∨ arg1 % 256 ≠ futexWait) (m : ByteMem) :
    (((o.sysFutex uaddr arg1 arg2 ts).result m).2.isError ↔
      (uaddr = 0 ∨ uaddr % 4 ≠ 0) ∨ arg1 % 256 > futexWakeAll) ∧
    (o.sysFutex uaddr arg1 arg2 ts).touched m = [] := by
  by_cases halign : uaddr = 0 ∨ uaddr % 4 ≠ 0
  · simp [sysFutex, halign]
  have hop : arg1 % 256 ≠ futexWait := by tauto
  have hwake : ∀ val, (Answer.ret (o.sched.futexWake uaddr val).2).isError = false := by
    intro val
    rw [Sched.futexWake, if_neg halign]
    exact Answer.isError_ret_natCast
  simp only [sysFutex, halign, hop, if_false]
  split_ifs with hone htwo
  · simp [hwake, hone, futexWake, futexWakeAll]
  · simp [hwake, htwo]
  have hbig : arg1 % 256 > futexWakeAll := by
    simp only [futexWait, futexWake, futexWakeAll] at *
    omega
  simp [hbig]

end Objects

/-! ## Confined calls -/

/-- The ids are stored to user memory, or not at all. -/
def GetresConfined (o : Objects cfg) (r e s : Nat) : Prop :=
  (isUserRange r 4 = true ∧ isUserRange e 4 = true ∧ isUserRange s 4 = true) ∨
    r = 0 ∨ e = 0 ∨ s = 0 ∨ o.getCurrentRealm = none

/-- The futex word is in user memory, and so is the timeout that is read; or the call fails
before it reads them. -/
def FutexConfined (m : ByteMem) (uaddr op val ts : Nat) : Prop :=
  uaddr = 0 ∨ uaddr % 4 ≠ 0 ∨ op % 256 > futexWakeAll ∨
    (isUserRange uaddr 4 = true ∧
      (op % 256 = futexWait → ts ≠ 0 → isUserRange ts 16 = false →
        ofBytes (readBytes m uaddr 4) ≠ val % 2 ^ 32 ∧ ¬ Meets (uaddr, 4) (ts, 16)))

/-- The buffers of a call are user ranges, or the call fails before it comes to them. A
`write` always comes to its buffer. -/
def Confined (k : Kernel cfg) : Call → Prop
  | .read hid buf count =>
    isUserRange buf.toNat count.toNat = true ∨ buf.toNat = 0 ∨ k.objects.ReadRefused hid count.toNat
  | .write _ buf count => isUserRange buf.toNat count.toNat = true
  | .getresuid r e s | .getresgid r e s => GetresConfined k.objects r.toNat e.toNat s.toNat
  | .futex uaddr op val ts => FutexConfined k.view uaddr.toNat op.toNat val.toNat ts.toNat

/-! ## Confined calls are those that respect the user range -/

theorem respects_read_iff {hid buf count : UInt64} :
    Respects k (.read hid buf count) ↔ Confined k (.read hid buf count) := by
  have hread := sysRead_guarded k.objects hid buf.toNat count.toNat
  simp only [Respects, Call.ranges, mem_singleton, forall_eq, Confined]
  constructor
  · intro h
    by_cases huser : isUserRange buf.toNat count.toNat
    · exact .inl huser
    by_contra hcon
    -- a range that is not a user range and not null is not empty
    obtain ⟨hnot, hnull, hrefused⟩ : _ ∧ _ ∧ _ := by simpa only [not_or] using hcon
    have hcount : count.toNat ≠ 0 := fun h0 =>
      hnot (isUserRange_iff.mpr ⟨hnull, .inl h0⟩)
    have hok := hread.accepted (by tauto) k.view
    rw [Bool.not_eq_true] at huser
    exact absurd ((h huser).1.symm.trans hok) (by decide)
  intro h huser
  have hR : buf.toNat = 0 ∨ count.toNat = 0 ∨ k.objects.ReadRefused hid count.toNat := by
    rcases h with h | h | h
    · rw [h] at huser
      cases huser
    · exact .inl h
    · exact .inr (.inr h)
  obtain ⟨herr, htouched⟩ := hread.refused hR k.view
  refine ⟨herr, fun t ht => ?_⟩
  simp only [Call.prog, htouched, not_mem_nil] at ht

theorem respects_write_iff {hid buf count : UInt64} :
    Respects k (.write hid buf count) ↔ Confined k (.write hid buf count) := by
  simp only [Respects, Call.ranges, mem_singleton, forall_eq, Confined]
  constructor
  · intro h
    by_contra huser
    rw [Bool.not_eq_true] at huser
    obtain ⟨herr, htouched⟩ := h huser
    by_cases hnull : buf.toNat = 0 ∨ count.toNat = 0
    · -- nothing is written, and the answer is 0
      simp [Kernel.call, Kernel.run, Call.prog, sysWrite, hnull, Answer.isError] at herr
    · obtain ⟨hbuf, hcount⟩ := not_or.mp hnull
      exact htouched _ (sysWrite_touches hid hbuf hcount) (meets_self hcount hcount)
  · intro h huser
    rw [h] at huser
    cases huser

theorem respects_getres_iff {kind : Security.IdKind} {r e s : Nat} :
    (∀ range ∈ [(r, 4), (e, 4), (s, 4)], isUserRange range.1 range.2 = false →
      ((k.objects.sysGetres kind r e s).result k.view).2.isError ∧
        ∀ t ∈ (k.objects.sysGetres kind r e s).touched k.view, ¬ Meets t range) ↔
      GetresConfined k.objects r e s := by
  rcases sysGetres_cases k.objects kind r e s k.view with
    ⟨hbad, herr, htouched⟩ | ⟨hgood, hok, htouched⟩
  · simp [GetresConfined, hbad, herr, htouched]
  · -- without a failure, none of the three may be bad
    simp only [hok, GetresConfined, hgood, or_false, Bool.false_eq_true, false_and, imp_false,
      Bool.not_eq_false, mem_cons, not_mem_nil, forall_eq_or_imp, forall_eq]

/-- `FUTEX_WAIT` on an aligned address. -/
theorem respects_wait_iff (k : Kernel cfg) {uaddr op : Nat} (val ts : Nat)
    (halign : ¬ (uaddr = 0 ∨ uaddr % 4 ≠ 0)) (hop : op % 256 = futexWait) :
    (∀ r ∈ (uaddr, 4) :: (if ts ≠ 0 then [(ts, 16)] else []), isUserRange r.1 r.2 = false →
      ((k.objects.sysFutex uaddr op val ts).result k.view).2.isError ∧
        ∀ t ∈ (k.objects.sysFutex uaddr op val ts).touched k.view, ¬ Meets t r) ↔
      isUserRange uaddr 4 ∧ (ts ≠ 0 → isUserRange ts 16 = false →
          ofBytes (readBytes k.view uaddr 4) ≠ val % 2 ^ 32 ∧ ¬ Meets (uaddr, 4) (ts, 16)) := by
  obtain ⟨herr, htouched⟩ := sysFutex_wait k.objects val ts halign hop k.view
  rw [htouched, herr]
  constructor
  · intro h
    constructor
    · -- the word is read in any case
      by_contra huser
      rw [Bool.not_eq_true] at huser
      exact (h _ mem_cons_self huser).2 _ mem_cons_self (meets_self (by decide) (by decide))
    · intro hts huser
      obtain ⟨hval, hmeets⟩ := h (ts, 16) (by simp [hts]) huser
      exact ⟨hval, hmeets _ mem_cons_self⟩
  rintro ⟨huaddr, hts⟩ r hr huser
  rcases mem_cons.mp hr with rfl | hr
  · rw [huaddr] at huser
    cases huser
  split_ifs at hr with hne
  · rw [mem_singleton.mp hr] at huser ⊢
    obtain ⟨hval, hmeets⟩ := hts hne huser
    refine ⟨hval, fun t ht => ?_⟩
    rw [if_neg fun h => hval h.1, mem_singleton] at ht
    exact ht ▸ hmeets
  · cases hr

theorem respects_futex_iff {uaddr op val ts : UInt64} :
    Respects k (.futex uaddr op val ts) ↔ Confined k (.futex uaddr op val ts) := by
  simp only [Respects, Kernel.call, Kernel.run, Call.prog, Call.ranges, Confined, FutexConfined]
  generalize uaddr.toNat = uaddr, op.toNat = op, val.toNat = val, ts.toNat = ts
  by_cases hwait : ¬ (uaddr = 0 ∨ uaddr % 4 ≠ 0) ∧ op % 256 = futexWait
  · obtain ⟨halign, hop⟩ := hwait
    have hsmall : ¬ futexWakeAll < futexWait := by decide
    have hiff := respects_wait_iff k val ts halign hop
    rw [not_or] at halign
    simpa [hop, halign.1, halign.2, hsmall] using hiff
  -- nothing is accessed, so all depends on whether the call fails
  have hother : (uaddr = 0 ∨ uaddr % 4 ≠ 0) ∨ op % 256 ≠ futexWait := by tauto
  obtain ⟨herr, htouched⟩ := sysFutex_other k.objects val ts hother k.view
  simp only [herr, htouched, not_mem_nil, false_imp_iff, implies_true, and_true]
  by_cases hbad : (uaddr = 0 ∨ uaddr % 4 ≠ 0) ∨ op % 256 > futexWakeAll
  · simp only [hbad, implies_true, true_iff]
    tauto
  · have hop : op % 256 ≠ futexWait := by tauto
    simp only [not_or] at hbad
    simp [hop, hbad.1.1, hbad.1.2, hbad.2]

/-- A call respects the user range if and only if it is confined. -/
theorem respects_iff (k : Kernel cfg) (c : Call) : Respects k c ↔ Confined k c := by
  cases c with
  | read hid buf count => exact respects_read_iff
  | write hid buf count => exact respects_write_iff
  | getresuid r e s => exact respects_getres_iff
  | getresgid r e s => exact respects_getres_iff
  | futex uaddr op val ts => exact respects_futex_iff

/-! ## Two kernels -/

/-- A confined call accesses the user half only. -/
theorem touched_user_of_confined {c : Call} (h : Confined k c) :
    ∀ r ∈ (c.prog k.objects).touched k.view, ∀ b, InRange r b → b ≤ userAddrMax := by
  have hwithin : ∀ (buf count : UInt64) {r : Nat × Nat} {b : Nat},
      isUserRange buf.toNat count.toNat → Within r (buf.toNat, count.toNat) →
      InRange r b → b ≤ userAddrMax :=
    fun _ _ _ _ huser hr hb => le_userAddrMax_of_inRange huser (hb.of_within hr)
  have hgetres : ∀ (kind : Security.IdKind) (x y z : Nat), GetresConfined k.objects x y z →
      ∀ r ∈ (k.objects.sysGetres kind x y z).touched k.view, ∀ b, InRange r b →
        b ≤ userAddrMax := by
    intro kind x y z hconf r hr b hb
    rcases sysGetres_cases k.objects kind x y z k.view with
      ⟨-, -, htouched⟩ | ⟨hgood, -, htouched⟩
    · simp [htouched] at hr
    obtain ⟨hx, hy, hz⟩ := hconf.resolve_right hgood
    simp only [htouched, mem_cons, not_mem_nil, or_false] at hr
    rcases hr with rfl | rfl | rfl
    · exact le_userAddrMax_of_inRange hx hb
    · exact le_userAddrMax_of_inRange hy hb
    · exact le_userAddrMax_of_inRange hz hb
  intro r hr b hb
  cases c with
  | read hid buf count =>
    have hread := sysRead_guarded k.objects hid buf.toNat count.toNat
    rcases h with h | h | h
    · exact hwithin buf count h (hread.touched k.view r hr) hb
    · simp [Call.prog, (hread.refused (.inl h) k.view).2] at hr
    · simp [Call.prog, (hread.refused (.inr (.inr h)) k.view).2] at hr
  | write hid buf count =>
    exact hwithin buf count h (sysWrite_touched hid r hr) hb
  | getresuid x y z => exact hgetres .user _ _ _ h r hr b hb
  | getresgid x y z => exact hgetres .group _ _ _ h r hr b hb
  | futex uaddr op val ts =>
    simp only [Call.prog] at hr
    by_cases hwait : ¬ (uaddr.toNat = 0 ∨ uaddr.toNat % 4 ≠ 0) ∧ op.toNat % 256 = futexWait
    · obtain ⟨halign, hop⟩ := hwait
      have hsmall : ¬ op.toNat % 256 > futexWakeAll := by rw [hop]; decide
      obtain ⟨huaddr, hts⟩ : isUserRange uaddr.toNat 4 ∧ _ := by
        rcases h with h | h | h | h
        · exact absurd (.inl h) halign
        · exact absurd (.inr h) halign
        · exact absurd h hsmall
        · exact h
      rw [(sysFutex_wait k.objects _ _ halign hop k.view).2] at hr
      rcases mem_cons.mp hr with rfl | hr
      · exact le_userAddrMax_of_inRange huaddr hb
      -- the timeout is read only if the word has the expected value
      split_ifs at hr with hread
      · rw [mem_singleton.mp hr] at hb
        have huser : isUserRange ts.toNat 16 := by
          by_contra hnot
          exact (hts hop hread.2 (by simpa using hnot)).1 hread.1
        exact le_userAddrMax_of_inRange huser hb
      · cases hr
    have hother : (uaddr.toNat = 0 ∨ uaddr.toNat % 4 ≠ 0) ∨
        op.toNat % 256 ≠ futexWait :=
      or_iff_not_imp_left.mpr fun halign hop => hwait ⟨halign, hop⟩
    rw [(sysFutex_other k.objects _ _ hother k.view).2] at hr
    cases hr

/-- Two kernels that differ in the kernel half of their memory only. -/
def SameButKernelHalf (k k' : Kernel cfg) : Prop := k.objects = k'.objects ∧ k.user = k'.user

/-- A step is confined: it is no call, or a confined one; a call that waited has a unit, and a buffer
that is a user range. -/
def ConfinedStep (k : Kernel cfg) : Action n → Prop
  | .call c => Confined k c
  | .again (.read _ _ buf count) | .again (.write _ _ buf count) =>
    isUserRange buf.toNat count.toNat = true ∧ count.toNat ≠ 0 ∧
      k.objects.sched.getCurrentUnit.isSome = true
  | _ => True

/-- So a call that goes on accesses the user half only. -/
theorem touched_user_of_again {a : Again} (h : ConfinedStep k (.again a)) :
    ∀ r ∈ (a.prog k.objects).touched k.view, ∀ b, InRange r b → b ≤ userAddrMax := by
  intro r hr b hb
  cases a with
  | read type resource buf count =>
    obtain ⟨huser, hcount, hsome⟩ := h
    obtain ⟨u, hcur⟩ := Option.isSome_iff_exists.mp hsome
    have hread := readResource_guarded hcur (isUserRange_iff.mp huser).1 hcount type resource
    exact le_userAddrMax_of_inRange huser (hb.of_within (hread.touched k.view r hr))
  | write type resource buf count =>
    exact le_userAddrMax_of_inRange h.1 (hb.of_within (writeResource_touched r hr))
  | add => simp [Again.prog] at hr

theorem SameButKernelHalf.view {k' : Kernel cfg} (h : SameButKernelHalf k k') :
    ∀ b, b ≤ userAddrMax → k.view b = k'.view b := by
  intro b hb
  simp only [Kernel.view, hb, if_true, Kernel.space, h.1, h.2]

theorem SameButKernelHalf.setView {k' : Kernel cfg} (h : SameButKernelHalf k k') {m m' : ByteMem}
    (hm : ∀ b, b ≤ userAddrMax → m b = m' b) : SameButKernelHalf (k.setView m) (k'.setView m') := by
  refine ⟨h.1, ?_⟩
  have hhalf : (fun a => if a ≤ userAddrMax then m a else k.user k.space a) =
      fun a => if a ≤ userAddrMax then m' a else k.user k.space a := by
    funext a
    split_ifs with ha
    · exact hm a ha
    · rfl
  simp only [Kernel.setView, Kernel.space, ← h.1, ← h.2] at hhalf ⊢
  rw [hhalf]

/-- Code that keeps to the user half runs alike. -/
theorem SameButKernelHalf.run {k' : Kernel cfg} (h : SameButKernelHalf k k')
    {p : Objects cfg → MemProg (Objects cfg × Answer)}
    (hp : ∀ r ∈ (p k.objects).touched k.view, ∀ b, InRange r b → b ≤ userAddrMax) :
    (k.run (p k.objects)).2 = (k'.run (p k'.objects)).2 ∧
      SameButKernelHalf (k.run (p k.objects)).1 (k'.run (p k'.objects)).1 := by
  obtain ⟨hresult, hmemory⟩ := (p k.objects).run_agree hp h.view
  rw [h.1] at hresult hmemory
  simp only [Kernel.run, h.1]
  exact ⟨congrArg Prod.snd hresult, congrArg Prod.fst hresult, (h.setView hmemory).2⟩

/-- Two kernels that differ in the kernel half answer a confined step alike, and differ in the
kernel half only after it. -/
theorem confined_agree {k' : Kernel cfg} {a : Action n} (h : SameButKernelHalf k k')
    (ha : ConfinedStep k a) :
    (step k a).2 = (step k' a).2 ∧ SameButKernelHalf (step k a).1 (step k' a).1 := by
  cases a with
  | call c => exact h.run (p := fun o => c.prog o) (touched_user_of_confined ha)
  | again a => exact h.run (p := fun o => a.prog o) (touched_user_of_again ha)
  | futexResume | sched =>
    simp only [step, h.1]
    exact ⟨trivial, rfl, h.2⟩
  | userStore a b =>
    simp only [step]
    split_ifs with hle
    · refine ⟨rfl, h.setView fun x hx => ?_⟩
      by_cases hxa : x = a
      · subst hxa
        simp
      · simpa [hxa] using h.view x hx
    · exact ⟨rfl, h⟩
  | clock now => exact ⟨rfl, congrArg (fun o => { o with uptimeNs := now }) h.1, h.2⟩

/-- The calls respect the user range exactly if they are confined; and two kernels that differ
in the kernel half only answer every run of confined steps alike, and keep the same objects and
the same user memory. -/
theorem keeps_to_user_memory :
    (∀ (k : Kernel cfg) (c : Call), Respects k c ↔ Confined k c) ∧
    ∀ (k k' : Kernel cfg) (as : List (Action n)), SameButKernelHalf k k' →
      Along step ConfinedStep k as →
        answers step k as = answers step k' as ∧
          SameButKernelHalf (final step k as) (final step k' as) := by
  refine ⟨respects_iff, ?_⟩
  intro k k' as hsame has
  have hstep : ∀ (s t : Kernel cfg) (a : Action n), SameButKernelHalf s t → ConfinedStep s a →
      (step s a).2 = (step t a).2 ∧ SameButKernelHalf (step s a).1 (step t a).1 :=
    fun _ _ _ h ha => confined_agree h ha
  exact answers_eq_of_rel hstep hsame has

/-! ## One unit with an eventfd -/

/-- The idle unit 0, and unit 1 of realm 1. -/
def demoConfig : Config 2 where
  isIdle u := u = 0
  idleUnit := 0
  idleUnit_isIdle := rfl
  rid u := u
  unitList rid := if rid = 1 then [1] else []
  signalfds _ := []

/-- The handle of the eventfd. -/
def demoHandle : UInt64 := HandleType.eventfd.bits

/-- Unit 1 runs with one handle, of an eventfd; the kernel half is filled with `b`. -/
def demo (b : UInt8) : Kernel demoConfig where
  objects :=
    { sched :=
        { next := fun _ => none
          queue := fun _ => ⟨none, none⟩
          unit := fun _ => ⟨.running, 0, false, 0, 0, 0⟩
          currentUnit := some 1
          schedulerEnabled := true
          waits := fun _ => [] }
      handles := fun _ => HandleTable.init.setSlot 0
        (some ⟨demoHandle, .eventfd, some 0, capRead ||| capWrite, 1, true⟩)
      cred := fun _ => {}
      signalsPending := fun _ => 0
      vfsHandle := fun _ => ⟨none, 0, 0⟩
      node := fun _ => ⟨.file, true, none, .file, .file, false, []⟩
      endpoint := fun _ => ⟨0, false⟩
      channel := fun _ => ⟨fun _ => 0, 16, 0, 0, 0, 1, 1, 1⟩
      socket := fun _ => ⟨false, none⟩
      eventfd := fun _ => ⟨0, false, true⟩
      timerfd := fun _ => ⟨0, true⟩
      signalfd := fun _ => ⟨1, 0, true⟩
      uptimeNs := 0
      serial := []
      dbc := []
      printDbc := id }
  user _ _ := 0
  kern _ := b

/-- A confined run: the unit stores 1, writes it to the eventfd and reads it back, while the
kernel halves differ. -/
theorem keeps_to_user_memory_eventfd :
    answers step (demo 0) [.userStore 0x1000 1, .call (.write demoHandle 0x1000 8),
        .call (.read demoHandle 0x2000 8)] =
      answers step (demo 255) [.userStore 0x1000 1, .call (.write demoHandle 0x1000 8),
        .call (.read demoHandle 0x2000 8)] ∧
    (answers step (demo 0) [.userStore 0x1000 1, .call (.write demoHandle 0x1000 8),
        .call (.read demoHandle 0x2000 8)] = [.ret 0, .ret 8, .ret 8]) := by
  refine ⟨(keeps_to_user_memory.2 (demo 0) (demo 255) _ ⟨rfl, rfl⟩ ?_).1, ?_⟩
  · exact ⟨trivial, rfl, .inl rfl, trivial⟩
  · decide +kernel

/-- A write from the kernel half is not refused, and what it answers depends on the bytes
there. -/
theorem write_reads_kernel_half :
    ¬ Respects (demo 0) (.write demoHandle 0xFFFF800000000000 8) ∧
    SameButKernelHalf (demo 0) (demo 255) ∧
    answers step (demo 0) [.call (.write demoHandle 0xFFFF800000000000 8)] = [.ret 8] ∧
    answers step (demo 255) [.call (.write demoHandle 0xFFFF800000000000 8)] = [.ret (-22)] := by
  refine ⟨?_, ⟨rfl, rfl⟩, by decide +kernel, by decide +kernel⟩
  intro h
  have huser : isUserRange 0xFFFF800000000000 8 = true := (respects_iff _ _).mp h
  exact absurd huser (by decide)

end Vespera.Sys
