/-! # Results and error numbers

`klib::Result<T>` is `Except Error T`, `VoidResult` is `Except Error Unit`.
System calls return an `i64`: a value, or the negated error number.
-/

namespace Vespera.Klib

/-- `klib::Error`, without `Ok` (the success case is `Except.ok`). -/
inductive Error where
  | perm | noEnt | srch | intr | io | nxIo | tooBig | noExec | badH | child | again | noMem
  | acces | fault | busy | exist | xDev | noDev | notDir | isDir | inval | nFile | mFile | notTty
  | txtBsy | fBig | noSpc | sPipe | roFs | mLink | pipe | dom | range | nameTooLong | noLck | noSys
  | notEmpty | loop | noMsg | overflow | ilSeq | addrInUse | connRefused | connAborted | notConn
  | afNoSupport | timedOut | unknown | unsupported | deadlock
deriving Repr, DecidableEq

/-- The error numbers of `vespera_errno.h`. -/
def Error.errno : Error → Nat
  | .perm => 1 | .noEnt => 2 | .srch => 3 | .intr => 4 | .io => 5 | .nxIo => 6 | .tooBig => 7
  | .noExec => 8 | .badH => 9 | .child => 10 | .again => 11 | .noMem => 12 | .acces => 13
  | .fault => 14 | .busy => 16 | .exist => 17 | .xDev => 18 | .noDev => 19 | .notDir => 20
  | .isDir => 21 | .inval => 22 | .nFile => 23 | .mFile => 24 | .notTty => 25 | .txtBsy => 26
  | .fBig => 27 | .noSpc => 28 | .sPipe => 29 | .roFs => 30 | .mLink => 31 | .pipe => 32
  | .dom => 33 | .range => 34 | .nameTooLong => 36 | .noLck => 37 | .noSys => 38
  | .notEmpty => 39 | .loop => 40 | .noMsg => 42 | .overflow => 75 | .ilSeq => 84
  | .afNoSupport => 97 | .addrInUse => 98 | .connAborted => 103 | .notConn => 107
  | .connRefused => 111 | .timedOut => 116 | .unknown => 1000 | .unsupported => 1001
  | .deadlock => 1002

/-- What a system call returns for an error. -/
def Error.toErrno (e : Error) : Int := -(e.errno : Int)

theorem Error.toErrno_neg (e : Error) : e.toErrno < 0 := by
  cases e <;> decide

end Vespera.Klib
