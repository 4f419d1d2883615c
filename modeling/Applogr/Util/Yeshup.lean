import Applogr.Util.Utils
import Mathlib.Logic.Function.Iterate

/-!
# The binary is extracted once

A path that `getYeshup` returns is the path of a program that has just been run.  A file that exists is
written again only when a wait is interrupted.  So when the system always answers in the same way and
nothing is interrupted, the first file decides what all later calls return, even if it has been cut off
while it was extracted.
-/

namespace Platform

variable {p : Platform} {s s' : BinDir} {b b' b'' : Binary}

/-- The file has just been run, and it has exited with 255. -/
def Started (p : Platform) (s : BinDir) : Prop :=
  ∃ content n, s = ⟨some ⟨content, true⟩, n + 1⟩ ∧ p.run n content = .ok 255

/-- What `getYeshup` returns. -/
def Returns (p : Platform) (r : String) (s : BinDir) : Prop :=
  r = "" ∨ r = p.absolutePath ∧ p.Started s

/-- What `getYeshup` throws, unless the process is killed: on a system without `CPU_ABI2`, a
`NullPointerException`. -/
def Throws (p : Platform) (e : Failure) : Prop :=
  e = .fault .killed ∨ e = .nullPointer ∧ (p.SDK_INT < 8 ∨ p.CPU_ABI2 = none)

/-- The file has not been written, and its mode has changed only by `chmod`. -/
structure Kept (p : Platform) (b b' : Binary) : Prop where
  content : b'.content = b.content
  executable : b.executable = true → b'.executable = true
  changed : b'.executable = true → b.executable = true ∨ ∃ n, (p.chmod n).1 = true

theorem Kept.refl (b : Binary) :
  p.Kept b b
  := ⟨rfl, id, Or.inl⟩

theorem Kept.trans (h : p.Kept b b') (h' : p.Kept b' b'') :
  p.Kept b b''
  := by
  constructor
  · apply Eq.trans h'.content h.content
  · intro hb
    apply h'.executable (h.executable hb)
  · intro hb
    rcases h'.changed hb with hb' | hn
    · apply h.changed hb'
    · apply Or.inr hn

/-- A file may become executable, by the `chmod` number `n`. -/
theorem Kept.chmod (b : Binary) (n : ℕ) :
  p.Kept b { b with executable := b.executable || (p.chmod n).1 }
  := by
  constructor
  · rfl
  · intro hb
    change (b.executable || _) = true
    rw [hb, Bool.true_or]
  · intro hb
    rcases Bool.or_eq_true_iff.mp hb with hb | hn
    · apply Or.inl hb
    · apply Or.inr ⟨n, hn⟩

/-- The operation number `n` runs the file, and the file is not executable or exits with another
code. -/
def Fails (p : Platform) (b : Binary) (n : ℕ) : Prop :=
  b.executable = true → Utils.expect 255 (p.run n b.content) = .error .ioException

/-- One of the operations on the file from number `i` to number `j` has been interrupted: when it was
run, or when it had failed and its mode was changed, or when it was run again after that. -/
def InterruptedIn (p : Platform) (b : Binary) (i j : ℕ) : Prop :=
  (i < j ∧ b.executable = true ∧ p.run i b.content = .error .interrupted) ∨
    (i + 1 < j ∧ p.Fails b i ∧ (p.chmod (i + 1)).2 = .error .interrupted) ∨
    (i + 2 < j ∧ p.Fails b i ∧ (p.chmod (i + 1)).2 = .ok 0 ∧
      (b.executable || (p.chmod (i + 1)).1) = true ∧ p.run (i + 2) b.content = .error .interrupted)

/-- The file fails, and either its mode is not changed or it fails again. -/
def Refused (p : Platform) (b : Binary) (n : ℕ) : Prop :=
  p.Fails b n ∧
    (Utils.expect 0 (p.chmod (n + 1)).2 = .error .ioException ∨
      (p.chmod (n + 1)).2 = .ok 0 ∧
        p.Fails { b with executable := b.executable || (p.chmod (n + 1)).1 } (n + 2))

/-! ### The operations -/

theorem expect_eq_error {code : ℤ} {r : Except Fault ℤ} {f : Fault} (hf : f ≠ .ioException)
    (h : Utils.expect code r = .error f) :
  r = .error f
  := by
  cases r with
  | error f' =>
      cases h
      rfl
  | ok c =>
      rw [Utils.expect] at h
      split at h
      · cases h
      · cases h
        exact absurd rfl hf

theorem expect_eq_ok {code : ℤ} {r : Except Fault ℤ} (h : Utils.expect code r = .ok ()) :
  r = .ok code
  := by
  cases r with
  | error f => cases h
  | ok c =>
      rw [Utils.expect] at h
      split at h
      · rename_i hc
        rw [hc]
      · cases h

theorem meets_perform {α : Type} {Q : α → BinDir → Prop} {E : Failure → BinDir → Prop}
    (result : BinDir → Except Fault α) (change : BinDir → Option Binary) (s : BinDir)
    (hQ : ∀ a, result s = .ok a → Q a ⟨change s, s.operations + 1⟩)
    (hE : ∀ f, result s = .error f → E (.fault f) ⟨change s, s.operations + 1⟩) :
  Meets Q E (Utils.perform result change s)
  := by
  rw [Utils.perform]
  cases h : result s with
  | ok a => apply hQ a h
  | error f => apply hE f h

theorem started_of_exec (h : Utils.expect 255 (p.exec s) = .ok ()) :
  p.Started ⟨s.yeshup, s.operations + 1⟩
  := by
  obtain ⟨_ | ⟨content, executable⟩, n⟩ := s
  · cases expect_eq_ok h
  · cases executable with
    | false => cases expect_eq_ok h
    | true => exact ⟨content, n, rfl, expect_eq_ok h⟩

/-- When the file is run, it has been started, or it fails, or the wait is interrupted, or the process
is killed. -/
theorem meets_execYeshup {Q : Unit → BinDir → Prop} {E : Failure → BinDir → Prop} {b : Binary}
    {n : ℕ} (hQ : p.Started ⟨some b, n + 1⟩ → Q () ⟨some b, n + 1⟩)
    (hfails : p.Fails b n → E (.fault .ioException) ⟨some b, n + 1⟩)
    (hinterrupted : b.executable = true → p.run n b.content = .error .interrupted →
      E (.fault .interrupted) ⟨some b, n + 1⟩)
    (hkilled : E (.fault .killed) ⟨some b, n + 1⟩) :
  Meets Q E (p.execYeshup ⟨some b, n⟩)
  := by
  obtain ⟨content, executable⟩ := b
  apply meets_perform
  · intro _ h
    apply hQ (started_of_exec h)
  · intro f h
    cases executable with
    | false =>
        cases h
        apply hfails
        rintro ⟨⟩
    | true =>
        cases f with
        | ioException =>
            apply hfails
            intro _
            apply h
        | interrupted =>
            apply hinterrupted rfl
            apply expect_eq_error (by decide) h
        | killed => apply hkilled

theorem meets_chmod744 {Q : Unit → BinDir → Prop} {E : Failure → BinDir → Prop} {b b' : Binary}
    {n : ℕ} (hb' : b' = { b with executable := b.executable || (p.chmod n).1 })
    (hQ : (p.chmod n).2 = .ok 0 → Q () ⟨some b', n + 1⟩)
    (hfails : Utils.expect 0 (p.chmod n).2 = .error .ioException →
      E (.fault .ioException) ⟨some b', n + 1⟩)
    (hinterrupted : (p.chmod n).2 = .error .interrupted → E (.fault .interrupted) ⟨some b', n + 1⟩)
    (hkilled : E (.fault .killed) ⟨some b', n + 1⟩) :
  Meets Q E (p.chmod744 ⟨some b, n⟩)
  := by
  subst hb'
  apply meets_perform
  · intro _ h
    apply hQ (expect_eq_ok h)
  · intro f h
    cases f with
    | ioException => apply hfails h
    | interrupted => apply hinterrupted (expect_eq_error (by decide) h)
    | killed => apply hkilled

/-! ### One call -/

/-- A file that exists is kept.  Its path is returned if it has been started, and no path if it is
refused. -/
theorem existing_spec (p : Platform) (b : Binary) (n : ℕ) :
  Meets
    (fun r s => (∃ b', s.yeshup = some b' ∧ p.Kept b b') ∧
      ((r = some p.absolutePath ∧ p.Started s) ∨ (r = some "" ∧ p.Refused b n) ∨
        (r = none ∧ p.InterruptedIn b n s.operations)))
    (fun e s => (∃ b', s.yeshup = some b' ∧ p.Kept b b') ∧ e = .fault .killed)
    (p.existing ⟨some b, n⟩)
  := by
  have hkept : p.Kept b { b with executable := b.executable || (p.chmod (n + 1)).1 } := Kept.chmod b _
  rw [existing, meets_tryCatch, meets_bind]
  apply meets_execYeshup
  · intro hstarted
    exact ⟨⟨b, rfl, Kept.refl b⟩, Or.inl ⟨rfl, hstarted⟩⟩
  · intro hfails
    change Meets _ _ ((tryCatch _ _ : EStateM Failure BinDir (Option String)) _)
    rw [meets_tryCatch, meets_bind]
    apply meets_chmod744 rfl
    · intro hchmod
      rw [meets_bind]
      apply meets_execYeshup
      · intro hstarted
        exact ⟨⟨_, rfl, hkept⟩, Or.inl ⟨rfl, hstarted⟩⟩
      · intro hfails'
        exact ⟨⟨_, rfl, hkept⟩, Or.inr (Or.inl ⟨rfl, hfails, Or.inr ⟨hchmod, hfails'⟩⟩)⟩
      · intro hexecutable hrun
        have hagain : p.InterruptedIn b n (n + 3) :=
          Or.inr (Or.inr ⟨Nat.lt_succ_self _, hfails, hchmod, hexecutable, hrun⟩)
        exact ⟨⟨_, rfl, hkept⟩, Or.inr (Or.inr ⟨rfl, hagain⟩)⟩
      · exact ⟨⟨_, rfl, hkept⟩, rfl⟩
    · intro hchmod
      exact ⟨⟨_, rfl, hkept⟩, Or.inr (Or.inl ⟨rfl, hfails, Or.inl hchmod⟩)⟩
    · intro hchmod
      have hmode : p.InterruptedIn b n (n + 2) :=
        Or.inr (Or.inl ⟨Nat.lt_succ_self _, hfails, hchmod⟩)
      exact ⟨⟨_, rfl, hkept⟩, Or.inr (Or.inr ⟨rfl, hmode⟩)⟩
    · exact ⟨⟨_, rfl, hkept⟩, rfl⟩
  · intro hexecutable hrun
    have hfirst : p.InterruptedIn b n (n + 1) := Or.inl ⟨Nat.lt_succ_self n, hexecutable, hrun⟩
    exact ⟨⟨b, rfl, Kept.refl b⟩, Or.inr (Or.inr ⟨rfl, hfirst⟩)⟩
  · exact ⟨⟨b, rfl, Kept.refl b⟩, rfl⟩

theorem ins_eq_none (h : p.ins = none) :
  p.SDK_INT < 8 ∨ p.CPU_ABI2 = none
  := by
  by_contra hnot
  rw [not_or, not_lt] at hnot
  obtain ⟨abi2, habi2⟩ := Option.ne_none_iff_exists'.mp hnot.2
  rw [ins] at h
  simp only [hnot.1, if_true, habi2] at h
  split_ifs at h

/-- Whatever happens while the file is extracted, its path is returned only if it has been started. -/
theorem extract_spec (p : Platform) (s : BinDir) :
  Meets (fun r s' => p.Returns r s' ∧ s.operations ≤ s'.operations)
    (fun e s' => p.Throws e ∧ s.operations ≤ s'.operations) (p.extract s)
  := by
  rw [extract]
  cases hins : p.ins with
  | none => exact ⟨Or.inr ⟨rfl, ins_eq_none hins⟩, le_refl _⟩
  | some ins =>
      have hcaught : ∀ (f : Fault) (s' : BinDir), s.operations ≤ s'.operations → Meets
          (fun r s' => p.Returns r s' ∧ s.operations ≤ s'.operations)
          (fun e s' => p.Throws e ∧ s.operations ≤ s'.operations) (useNothing (.fault f) s') := by
        intro f s' hs'
        cases f with
        | ioException =>
            rw [useNothing, meets_pure]
            exact ⟨Or.inl rfl, hs'⟩
        | interrupted =>
            rw [useNothing, meets_pure]
            exact ⟨Or.inl rfl, hs'⟩
        | killed =>
            rw [useNothing, meets_throw]
            · exact ⟨Or.inl rfl, hs'⟩
            · rintro ⟨⟩
            · rintro ⟨⟩
      simp only [meets_tryCatch, meets_bind]
      apply meets_perform
      · intro buffer _
        apply meets_perform
        · intro _ _
          apply meets_perform
          · intro _ _
            apply meets_perform
            · intro _ hexec
              refine ⟨Or.inr ⟨rfl, started_of_exec hexec⟩, ?_⟩
              change s.operations ≤ s.operations + 4
              omega
            · intro f _
              apply hcaught
              change s.operations ≤ s.operations + 4
              omega
          · intro f _
            apply hcaught
            change s.operations ≤ s.operations + 3
            omega
        · intro f _
          apply hcaught
          change s.operations ≤ s.operations + 2
          omega
      · intro f _
        apply hcaught
        apply Nat.le_succ

/-- The file that existed is kept, unless a wait for it has been interrupted. -/
def Preserves (p : Platform) (s s' : BinDir) : Prop :=
  ∀ b, s.yeshup = some b →
    (∃ b', s'.yeshup = some b' ∧ p.Kept b b') ∨ p.InterruptedIn b s.operations s'.operations

theorem InterruptedIn.mono {i j k : ℕ} (h : p.InterruptedIn b i j) (hjk : j ≤ k) :
  p.InterruptedIn b i k
  := by
  rcases h with ⟨hj, h⟩ | ⟨hj, h⟩ | ⟨hj, h⟩
  · exact Or.inl ⟨lt_of_lt_of_le hj hjk, h⟩
  · exact Or.inr (Or.inl ⟨lt_of_lt_of_le hj hjk, h⟩)
  · exact Or.inr (Or.inr ⟨lt_of_lt_of_le hj hjk, h⟩)

/-- However the operations of the system end, a path that `getYeshup` returns is the path of a file that
it has just started, it throws only if the process is killed or there is no `CPU_ABI2`, and a file that
exists is extracted again only if a wait for it has been interrupted. -/
theorem getYeshup_returns (p : Platform) (s : BinDir) :
  Meets (fun r s' => p.Returns r s' ∧ p.Preserves s s') (fun e s' => p.Throws e ∧ p.Preserves s s')
    (p.getYeshup s)
  := by
  rw [getYeshup, meets_bind]
  obtain ⟨yeshup, n⟩ := s
  cases yeshup with
  | none =>
      change Meets _ _ (p.extract _)
      apply (extract_spec p _).mono
      · intro r s' h
        exact ⟨h.1, by rintro b ⟨⟩⟩
      · intro e s' h
        exact ⟨h.1, by rintro b ⟨⟩⟩
  | some b =>
      change Meets _ _ ((p.existing >>= _) _)
      rw [meets_bind]
      apply (existing_spec p b n).mono
      · rintro r s' ⟨hkept, hr⟩
        have hpreserves : p.Preserves ⟨some b, n⟩ s' := by
          rintro _ ⟨⟩
          apply Or.inl hkept
        rcases hr with ⟨rfl, hstarted⟩ | ⟨rfl, -⟩ | ⟨rfl, hinterrupted⟩
        · exact ⟨Or.inr ⟨rfl, hstarted⟩, hpreserves⟩
        · exact ⟨Or.inl rfl, hpreserves⟩
        · apply (extract_spec p s').mono
          · rintro r s'' ⟨hr, hle⟩
            refine ⟨hr, ?_⟩
            rintro _ ⟨⟩
            apply Or.inr (hinterrupted.mono hle)
          · rintro e s'' ⟨he, hle⟩
            refine ⟨he, ?_⟩
            rintro _ ⟨⟩
            apply Or.inr (hinterrupted.mono hle)
      · rintro e s' ⟨hkept, he⟩
        refine ⟨Or.inl he, ?_⟩
        rintro _ ⟨⟩
        apply Or.inl hkept

/-! ### All calls -/

/-- The answers of a system, what the programs and `chmod` exit with. -/
structure Answers where
  run : List UInt8 → Except Fault ℤ
  chmod : Except Fault ℤ

/-- The program is run if it is executable, and it exits with 255. -/
def Answers.Works (a : Answers) (b : Binary) : Prop :=
  (b.executable = true ∨ a.chmod = .ok 0) ∧ a.run b.content = .ok 255

/-- The system gives the same answers at all times, unless the process is killed, and no wait is
interrupted. -/
structure Gives (p : Platform) (a : Answers) : Prop where
  run : ∀ n content, p.run n content = a.run content ∨ p.run n content = .error .killed
  run_waits : ∀ content, a.run content ≠ .error .interrupted
  chmod : ∀ n, (p.chmod n).2 = a.chmod ∨ (p.chmod n).2 = .error .killed
  chmod_waits : a.chmod ≠ .error .interrupted
  changed : ∀ n, (p.chmod n).1 = true → a.chmod = .ok 0
  changes : ∀ n, (p.chmod n).2 = .ok 0 → (p.chmod n).1 = true

variable {a : Answers}

theorem Gives.run_ne_interrupted (ha : p.Gives a) (n : ℕ) (content : List UInt8) :
  p.run n content ≠ .error .interrupted
  := by
  intro hrun
  rcases ha.run n content with h | h
  · apply ha.run_waits content (h.symm.trans hrun)
  · cases h.symm.trans hrun

theorem Gives.not_interrupted (ha : p.Gives a) (b : Binary) (i j : ℕ) :
  ¬ p.InterruptedIn b i j
  := by
  rintro (⟨-, -, hrun⟩ | ⟨-, -, hchmod⟩ | ⟨-, -, -, -, hrun⟩)
  · apply ha.run_ne_interrupted i b.content hrun
  · rcases ha.chmod (i + 1) with h | h
    · apply ha.chmod_waits (h.symm.trans hchmod)
    · cases h.symm.trans hchmod
  · apply ha.run_ne_interrupted (i + 2) b.content hrun

theorem Gives.run_eq_ok (ha : p.Gives a) {n : ℕ} {content : List UInt8} {code : ℤ}
    (h : p.run n content = .ok code) :
  a.run content = .ok code
  := by
  rcases ha.run n content with h' | h'
  · apply h'.symm.trans h
  · cases h'.symm.trans h

/-- A file that is kept works if it has worked before. -/
theorem Gives.works_kept (ha : p.Gives a) (h : p.Kept b b') :
  a.Works b' ↔ a.Works b
  := by
  rw [Answers.Works, Answers.Works, h.content]
  apply and_congr_left
  intro _
  constructor
  · rintro (hb' | hchmod)
    · rcases h.changed hb' with hb | ⟨n, hn⟩
      · apply Or.inl hb
      · apply Or.inr (ha.changed n hn)
    · apply Or.inr hchmod
  · rintro (hb | hchmod)
    · apply Or.inl (h.executable hb)
    · apply Or.inr hchmod

theorem Gives.works_started (ha : p.Gives a) (h : p.Started s) :
  ∃ b, s.yeshup = some b ∧ a.Works b
  := by
  obtain ⟨content, n, rfl, hrun⟩ := h
  exact ⟨_, rfl, Or.inl rfl, ha.run_eq_ok hrun⟩

/-- A file that fails does not work as it is. -/
theorem Gives.not_works_fails (ha : p.Gives a) {n : ℕ} (h : p.Fails b n)
    (hb : b.executable = true) :
  a.run b.content ≠ .ok 255
  := by
  intro hrun
  have herror := h hb
  rcases ha.run n b.content with h' | h'
  · rw [h', hrun] at herror
    cases herror
  · rw [h'] at herror
    cases herror

theorem Gives.not_works_refused (ha : p.Gives a) {n : ℕ} (h : p.Refused b n) :
  ¬ a.Works b
  := by
  obtain ⟨hfails, hrefused⟩ := h
  rintro ⟨hexecutable | hchmod, hrun⟩
  · apply ha.not_works_fails hfails hexecutable hrun
  · rcases hrefused with herror | ⟨hok, hfails'⟩
    · rcases ha.chmod (n + 1) with h' | h'
      · rw [h', hchmod] at herror
        cases herror
      · rw [h'] at herror
        cases herror
    · apply ha.not_works_fails hfails' _ hrun
      change (b.executable || _) = true
      rw [ha.changes (n + 1) hok, Bool.or_true]

/-- The path is returned if the program works, and no path if it does not. -/
def Decides (p : Platform) (a : Answers) (b : Binary) (r : String) : Prop :=
  (a.Works b ∧ r = p.absolutePath) ∨ (¬ a.Works b ∧ r = "")

/-- A call that finds a file keeps it, and the file decides what the call returns. -/
theorem Gives.getYeshup_some (ha : p.Gives a) (b : Binary) (n : ℕ) :
  Meets (fun r s => (∃ b', s.yeshup = some b' ∧ p.Kept b b') ∧ p.Decides a b r)
    (fun e s => (∃ b', s.yeshup = some b' ∧ p.Kept b b') ∧ e = .fault .killed)
    (p.getYeshup ⟨some b, n⟩)
  := by
  rw [getYeshup, meets_bind]
  change Meets _ _ ((p.existing >>= _) _)
  rw [meets_bind]
  apply (existing_spec p b n).mono
  · rintro r s ⟨hkept, ⟨rfl, hstarted⟩ | ⟨rfl, hrefused⟩ | ⟨-, hinterrupted⟩⟩
    · obtain ⟨b', hb', hworks⟩ := ha.works_started hstarted
      obtain ⟨b'', hb'', hkept'⟩ := hkept
      cases hb'.symm.trans hb''
      exact ⟨⟨b', hb', hkept'⟩, Or.inl ⟨(ha.works_kept hkept').mp hworks, rfl⟩⟩
    · exact ⟨hkept, Or.inr ⟨ha.not_works_refused hrefused, rfl⟩⟩
    · exact absurd hinterrupted (ha.not_interrupted _ _ _)
  · intro e s h
    apply h

/-- The directory after `n` calls, each of which ends in some way. -/
def calls (p : Platform) (n : ℕ) (s : BinDir) : BinDir := (fun s => (p.getYeshup s).state)^[n] s

theorem calls_succ (p : Platform) (n : ℕ) (s : BinDir) :
  p.calls (n + 1) s = (p.getYeshup (p.calls n s)).state
  := Function.iterate_succ_apply' _ n s

/-- A file that is there after some calls is kept by the calls that follow. -/
theorem Gives.calls_kept (ha : p.Gives a) {i j : ℕ} (hij : i ≤ j)
    (hb : (p.calls i s).yeshup = some b) :
  ∃ b', (p.calls j s).yeshup = some b' ∧ p.Kept b b'
  := by
  induction j, hij using Nat.le_induction with
  | base => exact ⟨b, hb, Kept.refl b⟩
  | succ j hij ih =>
      obtain ⟨b', hb', hkept⟩ := ih
      have hcall := ha.getYeshup_some b' (p.calls j s).operations
      rw [← hb'] at hcall
      have hstate : ∃ b'', (p.getYeshup (p.calls j s)).state.yeshup = some b'' ∧ p.Kept b' b'' := by
        apply Meets.state (P := fun s' : BinDir => ∃ b'', s'.yeshup = some b'' ∧ p.Kept b' b'')
        apply hcall.mono
        · intro r s' h
          apply h.1
        · intro e s' h
          apply h.1
      obtain ⟨b'', hb'', hkept'⟩ := hstate
      rw [calls_succ]
      exact ⟨b'', hb'', hkept.trans hkept'⟩

/-- The file decides what all later calls return. -/
theorem Gives.calls_decides (ha : p.Gives a) {i j : ℕ} (hij : i ≤ j)
    (hb : (p.calls i s).yeshup = some b) :
  Meets (fun r _ => p.Decides a b r) (fun e _ => e = .fault .killed) (p.getYeshup (p.calls j s))
  := by
  obtain ⟨b', hb', hkept⟩ := ha.calls_kept hij hb
  have hcall := ha.getYeshup_some b' (p.calls j s).operations
  rw [← hb'] at hcall
  apply hcall.mono
  · rintro r s' ⟨-, hr⟩
    rw [Decides, ha.works_kept hkept] at hr
    apply hr
  · intro e s' h
    apply h.2

/-- On a system that always gives the same answers, a file that is there after some calls is never
written again, also if it has been cut off, and it decides what all later calls return.  If the path has
been returned once, then all later calls return it. -/
theorem decided_once (ha : p.Gives a) (s : BinDir) (i : ℕ) :
  (∀ b, (p.calls i s).yeshup = some b → ∀ j, i ≤ j →
    (∃ b', (p.calls j s).yeshup = some b' ∧ b'.content = b.content) ∧
      Meets (fun r _ => p.Decides a b r) (fun e _ => e = .fault .killed)
        (p.getYeshup (p.calls j s))) ∧
  (∀ s', p.absolutePath ≠ "" → p.getYeshup (p.calls i s) = .ok p.absolutePath s' → ∀ j, i < j →
    Meets (fun r _ => r = p.absolutePath) (fun e _ => e = .fault .killed) (p.getYeshup (p.calls j s)))
  := by
  constructor
  · intro b hb j hij
    obtain ⟨b', hb', hkept⟩ := ha.calls_kept hij hb
    exact ⟨⟨b', hb', hkept.content⟩, ha.calls_decides hij hb⟩
  · intro s' hpath hcall j hij
    have hreturns := getYeshup_returns p (p.calls i s)
    rw [hcall] at hreturns
    rcases hreturns.1 with hnone | ⟨-, hstarted⟩
    · exact absurd hnone hpath
    · obtain ⟨b, hb, hworks⟩ := ha.works_started hstarted
      have hlater : (p.calls (i + 1) s).yeshup = some b := by
        rw [calls_succ, hcall]
        apply hb
      apply (ha.calls_decides hij hlater).mono
      · rintro r s' (⟨-, hr⟩ | ⟨hnot, -⟩)
        · apply hr
        · exact absurd hworks hnot
      · intro e s' he
        apply he

/-- A phone that runs the whole program, and no part of it. -/
def wholeProgram : Answers where
  run content := if content = [1, 2, 3, 4] then .ok 255 else .error .ioException
  chmod := .ok 0

/-- The process is killed while the program is extracted for the first time. -/
def cutOffPhone : Platform where
  SDK_INT := 17
  CPU_ABI := "armeabi-v7a"
  CPU_ABI2 := some "armeabi"
  absolutePath := "/data/data/net.mhuang.applogr/app_bin/yeshup"
  raw _ _ := .ok [1, 2, 3, 4]
  store n := if n = 1 then .cut 2 .killed else .all
  chmod _ := (true, .ok 0)
  run _ content := wholeProgram.run content

theorem gives_cutOffPhone :
  cutOffPhone.Gives wholeProgram
  := by
  constructor
  · intro n content
    apply Or.inl rfl
  · intro content
    change (if _ then _ else _) ≠ _
    split <;> rintro ⟨⟩
  · intro n
    apply Or.inl rfl
  · rintro ⟨⟩
  · intro n _
    rfl
  · intro n _
    rfl

theorem decided_once_cutOffPhone :
  (cutOffPhone.calls 1 ⟨none, 0⟩).yeshup = some ⟨[1, 2], false⟩ ∧
    Meets (fun r _ => cutOffPhone.Decides wholeProgram ⟨[1, 2], false⟩ r)
      (fun e _ => e = .fault .killed) (cutOffPhone.getYeshup (cutOffPhone.calls 2 ⟨none, 0⟩))
  := by
  have hcut : (cutOffPhone.calls 1 ⟨none, 0⟩).yeshup = some ⟨[1, 2], false⟩ := by decide
  exact ⟨hcut, ((decided_once gives_cutOffPhone ⟨none, 0⟩ 1).1 _ hcut 2 (by decide)).2⟩

end Platform
