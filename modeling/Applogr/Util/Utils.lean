import Applogr.Foundation.Postconditions
import Mathlib.Data.List.Infix

/-!
# The binary yeshup

The readers start their child processes by `yeshup`, a small program that is extracted from the
resources of the application.  `Utils.getYeshup` is called by each reader before its thread is
started.  It runs other programs and writes a file, and each of these operations may fail, or it may be
the last one before the process is killed.
-/

/-- The ways in which an operation of the system fails. -/
inductive Fault where
  | ioException
  | interrupted
  | killed
deriving DecidableEq, Repr

/-- What `getYeshup` throws. -/
inductive Failure where
  | fault (f : Fault)
  | nullPointer
deriving DecidableEq, Repr

/-- The resources that contain the binary. -/
inductive Abi where
  | yeshup_armeabiv7a
  | yeshup_armeabi
  | yeshup_x86
  | yeshup_mips
deriving DecidableEq, Repr

/-- What becomes of the bytes that are written to a file: all are written, or the file is not opened,
or it is cut off. -/
inductive Stored where
  | all
  | refused (f : Fault)
  | cut (length : ℕ) (f : Fault)
deriving DecidableEq, Repr

/-- A file with a program. -/
structure Binary where
  content : List UInt8
  executable : Bool
deriving DecidableEq, Repr

/-- The system, which performs the operations of `getYeshup`: `raw n` is what the operation number `n`
reads from a resource, `store n` is what becomes of what it writes, `run n` is the exit code of the
program that it runs, and `chmod n` tells whether it changes the mode, and its exit code. -/
structure Platform where
  SDK_INT : ℕ
  CPU_ABI : String
  CPU_ABI2 : Option String
  absolutePath : String
  raw : ℕ → Abi → Except Fault (List UInt8)
  store : ℕ → Stored
  chmod : ℕ → Bool × Except Fault ℤ
  run : ℕ → List UInt8 → Except Fault ℤ

/-- The directory `bin`, and the number of the operations so far. -/
structure BinDir where
  yeshup : Option Binary
  operations : ℕ
deriving DecidableEq, Repr

namespace Utils

/-- `if (….waitFor() != code) throw new IOException()` -/
def expect (code : ℤ) : Except Fault ℤ → Except Fault Unit
  | .ok c => if c = code then .ok () else .error .ioException
  | .error f => .error f

/-- The operation that changes the directory by `change`. -/
def perform {α : Type} (result : BinDir → Except Fault α) (change : BinDir → Option Binary) :
    EStateM Failure BinDir α := fun s =>
  match result s with
  | .ok a => .ok a ⟨change s, s.operations + 1⟩
  | .error f => .error (.fault f) ⟨change s, s.operations + 1⟩

end Utils

namespace Platform

open Utils

variable (p : Platform)

/-- `Runtime.getRuntime().exec(yeshup.getAbsolutePath()).waitFor()`.  A file that is missing or not
executable is not run. -/
def exec (s : BinDir) : Except Fault ℤ :=
  match s.yeshup with
  | some ⟨content, true⟩ => p.run s.operations content
  | _ => .error .ioException

/-- The yeshup without arguments exits with 255. -/
def execYeshup : EStateM Failure BinDir Unit :=
  perform (fun s => expect 255 (p.exec s)) BinDir.yeshup

/-- `chmod 744` exits with 0. -/
def chmod744 : EStateM Failure BinDir Unit :=
  perform (fun s => expect 0 (p.chmod s.operations).2)
    (fun s => s.yeshup.map fun b => { b with executable := b.executable || (p.chmod s.operations).1 })

/-- `ins.available()`, `ins.read(buffer)` and `ins.close()` -/
def read (ins : Abi) : EStateM Failure BinDir (List UInt8) :=
  perform (fun s => p.raw s.operations ins) BinDir.yeshup

/-- `new FileOutputStream(yeshup.getAbsolutePath())`, `fos.write(buffer)` and `fos.close()`.  The mode
of a file that exists is kept, and a new file is not executable. -/
def write (buffer : List UInt8) : EStateM Failure BinDir Unit :=
  perform
    (fun s => match p.store s.operations with
      | .all => .ok ()
      | .refused f => .error f
      | .cut _ f => .error f)
    (fun s =>
      let executable := s.yeshup.elim false Binary.executable
      match p.store s.operations with
      | .all => some ⟨buffer, executable⟩
      | .refused _ => s.yeshup
      | .cut length _ => some ⟨buffer.take length, executable⟩)

/-- The resource for the ABI, `none` for a `NullPointerException` at `CPU_ABI2.contains`. -/
def ins : Option Abi :=
  let FROYO := 8
  let CPU_ABI2 := if FROYO ≤ p.SDK_INT then p.CPU_ABI2 else none
  if p.CPU_ABI = "armeabi-v7a" ∨ CPU_ABI2 = some "armeabi-v7a" then
    some .yeshup_armeabiv7a
  else if "armeabi".toList <:+: p.CPU_ABI.toList then
    some .yeshup_armeabi
  else
    match CPU_ABI2 with
    | none => none
    | some abi2 =>
        if "armeabi".toList <:+: abi2.toList then
          some .yeshup_armeabi
        else if p.CPU_ABI = "x86" ∨ abi2 = "x86" then
          some .yeshup_x86
        else if p.CPU_ABI = "mips" ∨ abi2 = "mips" then
          some .yeshup_mips
        else
          some .yeshup_armeabi

/-- The first part of `getYeshup`, if the file exists.  It returns nothing if a wait is interrupted. -/
def existing : EStateM Failure BinDir (Option String) :=
  tryCatch
    (do
      p.execYeshup
      return some p.absolutePath)
    fun
    | .fault .ioException =>
        tryCatch
          (do
            p.chmod744
            p.execYeshup
            return some p.absolutePath)
          fun
          | .fault .interrupted => return none
          | .fault .ioException => return some ""
          | e => throw e
    | .fault .interrupted => return none
    | e => throw e

/-- The handlers of the second part. -/
def useNothing : Failure → EStateM Failure BinDir String
  | .fault .ioException => return ""
  | .fault .interrupted => return ""
  | e => throw e

/-- The second part of `getYeshup`, which extracts the file. -/
def extract : EStateM Failure BinDir String :=
  match p.ins with
  | none => throw .nullPointer
  | some ins =>
      tryCatch
        (do
          let buffer ← p.read ins
          p.write buffer
          p.chmod744
          p.execYeshup
          return p.absolutePath)
        useNothing

/-- `getYeshup(context)` -/
def getYeshup : EStateM Failure BinDir String := do
  if (← get).yeshup.isSome then
    match ← p.existing with
    | some path => return path
    | none => p.extract
  else
    p.extract

end Platform
