import Applogr.Concurrency.Readers

/-!
# Handing over to the next reader

When the listener of each reader is set before the reader takes its first step, the readers take
turns: all but the last have handed over, and the last one starts, reads, hands over, or has failed.
-/

/-- What is known about a reader: where its thread is, its fields, how often it has called
`onLineRead(null)`, how many readers it has started, and how it has failed. -/
structure Status where
  pc : Pc
  buffer : LogcatBuffer
  told : ℕ
  replacements : ℕ
  startFailed : Prop
  loopFailed : Prop

namespace Status

/-- The status of the reader `r` after a step of its thread. -/
def ran (r : Ref) (st : Status) (a : Ran) : Status :=
  { pc := a.pc
    buffer := a.buffer
    told := st.told + a.events.count (.heard r none)
    replacements := st.replacements + a.events.count (.started (some r))
    startFailed := st.startFailed ∨ .startFailed r ∈ a.events
    loopFailed := st.loopFailed ∨ .loopFailed r ∈ a.events }

/-- The start-up of the reader has failed, or an exception has been thrown in its loop. -/
def Failed (st : Status) : Prop := st.startFailed ∨ st.loopFailed

/-- The reader has not been constructed. -/
structure Unstarted (st : Status) : Prop where
  pc : st.pc = .run .unstarted
  told : st.told = 0
  replacements : st.replacements = 0

/-- The reader has been constructed, and its listener has not been set. -/
structure New (st : Status) : Prop where
  pc : st.pc = .run .clear
  buffer : st.buffer = LogcatBuffer.new
  told : st.told = 0
  replacements : st.replacements = 0

/-- The reader has started the next reader. -/
structure Replaced (st : Status) : Prop where
  run : st.buffer.run = false
  told : st.told = 1
  replacements : st.replacements = 1

/-- Where a thread is that has handed over.  It does not call its listener again. -/
def PastPc (listener : Bool) : Pc → Prop
  | .run .forget => True
  | .run .check | .run .loop | .run .destroy | .run .finished => listener = false
  | _ => False

/-- The reader has handed over. -/
structure Past (st : Status) : Prop extends Replaced st where
  pc : PastPc st.buffer.listener st.pc

/-- The reader has not called `onLineRead(null)`. -/
structure Silent (st : Status) : Prop where
  told : st.told = 0
  replacements : st.replacements = 0

/-- The reader is starting or reading. -/
structure Early (st : Status) : Prop extends Silent st where
  listener : st.buffer.listener = true
  run : st.buffer.run = true ∨ st.Failed

/-- The reader is starting or reading, hands over but has not started the next reader, or has
failed. -/
def Active (st : Status) : Prop :=
  match st.pc with
  | .run .clear | .run .waitFor | .run .exec | .run .write | .run .loop | .run .readLine
  | .run (.deliver _) | .run .calling => st.Early
  | .run .stop => st.Silent ∧ st.buffer.listener = true
  | .run .tell => st.Silent ∧ st.buffer.listener = true ∧ st.buffer.run = false
  | .run .destroy | .run .finished | .run .crashed => st.Silent ∧ st.Failed
  | .call c ret =>
      ret = .forget ∧ (c = .stopLogcat ∨ c = .construct) ∧
        st.told = 1 ∧ st.replacements = 0 ∧ st.buffer.run = false
  | .run .unstarted | .run .forget | .run .check => False

/-- The loop of the reader is over or was never entered. -/
def LoopOver (st : Status) : Prop :=
  st.pc = .run .destroy ∨ st.pc = .run .finished ∨ st.pc = .run .crashed

/-- The reader is starting or running, or it hands over. -/
def Alive (st : Status) : Prop :=
  match st.pc with
  | .run .clear | .run .waitFor | .run .exec | .run .write | .run .readLine | .run (.deliver _)
  | .run .calling | .run .stop | .run .tell => True
  | .run .loop => st.buffer.run = true
  | .call _ ret => ret = .forget
  | _ => False

/-! ### Steps of the thread of a reader -/

variable {d : Device} {r : Ref} {st : Status} {p : RunPc} {o : Outcome} {a : Ran}

theorem Silent.ran (h : st.Silent) (pc : Pc) (b : LogcatBuffer) {es : List Event}
    (htold : es.count (.heard r none) = 0) (hstarted : es.count (.started (some r)) = 0) :
  (st.ran r ⟨pc, b, es⟩).Silent
  := by
  constructor
  · rw [Status.ran, h.told, htold]
  · rw [Status.ran, h.replacements, hstarted]

theorem Failed.ran (h : st.Failed) (a : Ran) :
  (st.ran r a).Failed
  := h.imp Or.inl Or.inl

theorem Early.ran (h : st.Early) (pc : Pc) :
  (st.ran r ⟨pc, st.buffer, []⟩).Early
  := { h.toSilent.ran pc st.buffer rfl rfl with
    listener := h.listener
    run := h.run.imp_right (Failed.ran · _) }

theorem Early.startFailed (h : st.Early) (q : RunPc) :
  (st.ran r (st.buffer.giveUp (.startFailed r) q)).Early
  := { h.toSilent.ran (.run q) st.buffer.stop rfl rfl with
    listener := h.listener
    run := Or.inr (Or.inl (Or.inr (List.mem_singleton_self _))) }

theorem Early.loopFailed (h : st.Early) (q : RunPc) :
  (st.ran r (st.buffer.giveUp (.loopFailed r) q)).Early
  := { h.toSilent.ran (.run q) st.buffer.stop rfl rfl with
    listener := h.listener
    run := Or.inr (Or.inr (Or.inr (List.mem_singleton_self _))) }

/-- A thread that has handed over ends, and it does not call its listener. -/
theorem Past.ran (h : st.Past) (hpc : st.pc = .run p) (ha : st.buffer.runStep d r p o = some a) :
  (st.ran r a).Past
  := by
  have hp := h.pc
  rw [hpc] at hp
  cases p with
  | forget =>
      cases o <;> cases ha
      exact ⟨⟨h.run, h.told, h.replacements⟩, rfl⟩
  | check =>
      have hl : st.buffer.listener = false := hp
      cases o <;> simp only [LogcatBuffer.runStep, hl] at ha <;> cases ha
      exact ⟨⟨h.run, h.told, h.replacements⟩, hl⟩
  | loop =>
      have hl : st.buffer.listener = false := hp
      cases o <;> simp only [LogcatBuffer.runStep, h.run] at ha <;> cases ha
      exact ⟨⟨h.run, h.told, h.replacements⟩, hl⟩
  | destroy =>
      have hl : st.buffer.listener = false := hp
      cases o <;> cases ha <;> exact ⟨⟨h.run, h.told, h.replacements⟩, hl⟩
  | finished => cases o <;> cases ha
  | unstarted | clear | waitFor | exec | write | readLine | deliver | calling | stop | tell
  | crashed => cases hp

theorem Early.ran_clear (h : st.Early) (ha : st.buffer.runStep d r .clear o = some a) :
  (st.ran r a).Active
  := by
  cases o <;> cases ha
  · apply h.ran
  · apply h.startFailed

/-- The start-up goes on after the event log could not be cleared. -/
theorem Early.ran_waitFor (h : st.Early) (ha : st.buffer.runStep d r .waitFor o = some a) :
  (st.ran r a).Active
  := by
  cases o with
  | exits code =>
      rw [LogcatBuffer.runStep] at ha
      split at ha
      · cases ha
        apply h.ran
      · cases ha
        apply h.startFailed
  | interrupted =>
      cases ha
      apply h.startFailed
  | returns | line | endOfStream | ioException | throws => cases ha

theorem Early.ran_exec (h : st.Early) (ha : st.buffer.runStep d r .exec o = some a) :
  (st.ran r a).Active
  := by
  cases o with
  | returns =>
      rw [LogcatBuffer.runStep] at ha
      split at ha
      · cases ha
        apply h.ran
      · cases ha
        apply h.ran
  | ioException =>
      cases ha
      apply h.startFailed
  | exits | interrupted | line | endOfStream | throws => cases ha

theorem Early.ran_write (h : st.Early) (ha : st.buffer.runStep d r .write o = some a) :
  (st.ran r a).Active
  := by
  cases o <;> cases ha
  · apply h.ran
  · apply h.startFailed

/-- The loop is left only by a reader that has failed. -/
theorem Early.ran_loop (h : st.Early) (ha : st.buffer.runStep d r .loop o = some a) :
  (st.ran r a).Active
  := by
  cases o <;> cases ha
  cases hrun : st.buffer.run with
  | true => apply h.ran
  | false =>
      have hfailed : st.Failed := by
        apply h.run.resolve_left
        rw [hrun]
        apply Bool.false_ne_true
      exact ⟨h.toSilent.ran _ _ rfl rfl, hfailed.ran _⟩

/-- The end of the stream is the only way to the statements that hand over. -/
theorem Early.ran_readLine (h : st.Early) (ha : st.buffer.runStep d r .readLine o = some a) :
  (st.ran r a).Active
  := by
  cases o <;> cases ha
  · apply h.ran
  · exact ⟨h.toSilent.ran _ _ rfl rfl, h.listener⟩
  · apply h.loopFailed

/-- The listener is not null, so the line is passed on. -/
theorem Early.ran_deliver {read : String} (h : st.Early)
    (ha : st.buffer.runStep d r (.deliver read) o = some a) :
  (st.ran r a).Active
  := by
  cases o <;> simp only [LogcatBuffer.runStep, h.listener, if_true] at ha <;> cases ha
  have hother : [Event.heard r (some read)].count (.heard r none) = 0 := by
    apply List.count_eq_zero_of_not_mem
    intro hmem
    cases List.mem_singleton.mp hmem
  exact { h.toSilent.ran (.run .calling) st.buffer hother rfl with
    listener := h.listener
    run := h.run.imp_right (Failed.ran · _) }

theorem Early.ran_calling (h : st.Early) (ha : st.buffer.runStep d r .calling o = some a) :
  (st.ran r a).Active
  := by
  cases o <;> cases ha
  · apply h.ran
  · exact ⟨h.toSilent.ran _ _ rfl rfl, Or.inr (Or.inr (List.mem_singleton_self _))⟩

/-- A thread that has not handed over goes on. -/
theorem Active.ran (h : st.Active) (hpc : st.pc = .run p)
    (ha : st.buffer.runStep d r p o = some a) :
  (st.ran r a).Active
  := by
  rw [Active, hpc] at h
  cases p with
  | clear => apply Early.ran_clear h ha
  | waitFor => apply Early.ran_waitFor h ha
  | exec => apply Early.ran_exec h ha
  | write => apply Early.ran_write h ha
  | loop => apply Early.ran_loop h ha
  | readLine => apply Early.ran_readLine h ha
  | deliver read => apply Early.ran_deliver h ha
  | calling => apply Early.ran_calling h ha
  | stop =>
      obtain ⟨hs, hl⟩ : st.Silent ∧ st.buffer.listener = true := h
      cases o <;> cases ha
      exact ⟨hs.ran _ _ rfl rfl, hl, rfl⟩
  | tell =>
      obtain ⟨hs, hl, hrun⟩ : st.Silent ∧ st.buffer.listener = true ∧ st.buffer.run = false := h
      cases o <;> simp only [LogcatBuffer.runStep, hl, if_true] at ha <;> cases ha
      have htold : st.told + [Event.heard r none].count (.heard r none) = 1 := by
        rw [hs.told, List.count_singleton_self]
      exact ⟨rfl, Or.inl rfl, htold, hs.replacements, hrun⟩
  | destroy =>
      obtain ⟨hs, hfailed⟩ : st.Silent ∧ st.Failed := h
      cases o <;> cases ha <;> exact ⟨hs.ran _ _ rfl rfl, hfailed.ran _⟩
  | finished | crashed => cases o <;> cases ha
  | unstarted | forget | check => cases h

/-! ### What is known about a reader -/

theorem Unstarted.not_loopOver (h : st.Unstarted) :
  ¬ st.LoopOver
  := by
  rw [LoopOver, h.pc]
  rintro (⟨⟨⟩⟩ | ⟨⟨⟩⟩ | ⟨⟨⟩⟩)

theorem New.not_loopOver (h : st.New) :
  ¬ st.LoopOver
  := by
  rw [LoopOver, h.pc]
  rintro (⟨⟨⟩⟩ | ⟨⟨⟩⟩ | ⟨⟨⟩⟩)

theorem New.alive (h : st.New) :
  st.Alive
  := by
  rw [Alive, h.pc]
  trivial

/-- A reader whose loop is over without having handed over has failed. -/
theorem Active.failed_of_loopOver (h : st.Active) (hover : st.LoopOver) :
  st.Silent ∧ st.Failed
  := by
  rw [Active] at h
  obtain hpc | hpc | hpc := hover <;> rw [hpc] at h <;> exact h

/-- A reader that hands over and has not been replaced is about to be stopped, or to be replaced. -/
theorem Active.call {c : CallPc} {ret : RunPc} (h : st.Active) (hpc : st.pc = .call c ret) :
  ret = .forget ∧ (c = .stopLogcat ∨ c = .construct) ∧
    st.told = 1 ∧ st.replacements = 0 ∧ st.buffer.run = false
  := by
  rw [Active, hpc] at h
  exact h

theorem Active.silent_or_told (h : st.Active) :
  st.Silent ∨ (st.told = 1 ∧ st.replacements = 0)
  := by
  cases hpc : st.pc with
  | call c ret =>
      obtain ⟨-, -, htold, hreplacements, -⟩ := h.call hpc
      right
      use htold, hreplacements
  | run p =>
      rw [Active, hpc] at h
      left
      cases p with
      | clear | waitFor | exec | write | loop | readLine | deliver | calling =>
          exact Early.toSilent h
      | stop | tell | destroy | finished | crashed => exact h.1
      | unstarted | forget | check => exact h.elim

/-- A reader calls `onLineRead(null)` at most once, and only then it starts another one. -/
theorem once (h : st.Unstarted ∨ st.New ∨ st.Replaced ∨ st.Active) :
  st.told ≤ 1 ∧ st.replacements ≤ st.told
  := by
  obtain h | h | h | h := h
  · rw [h.told, h.replacements]
    decide
  · rw [h.told, h.replacements]
    decide
  · rw [h.told, h.replacements]
    decide
  · obtain h | ⟨htold, hreplacements⟩ := h.silent_or_told
    · rw [h.told, h.replacements]
      decide
    · rw [htold, hreplacements]
      decide

theorem Active.alive_or_failed (h : st.Active) :
  st.Alive ∨ st.Failed
  := by
  rw [Alive]
  cases hpc : st.pc with
  | call c ret =>
      left
      exact (h.call hpc).1
  | run p =>
      rw [Active, hpc] at h
      cases p with
      | clear | waitFor | exec | write | readLine | deliver | calling | stop | tell =>
          exact Or.inl trivial
      | loop => exact Early.run h
      | destroy | finished | crashed => exact Or.inr h.2
      | unstarted | forget | check => exact h.elim

end Status

/-- The reader that an event is about. -/
def Event.About (r : Ref) : Event → Prop
  | .started starter => starter = some r
  | .heard r' _ | .startFailed r' | .loopFailed r' => r' = r

/-- An event is about one reader. -/
theorem Event.About.eq {e : Event} {r r' : Ref} (h : e.About r) (h' : e.About r') :
  r' = r
  := by
  cases e with
  | started starter => exact Option.some.inj (h'.symm.trans h)
  | heard r₀ read => exact h'.symm.trans h
  | startFailed r₀ => exact h'.symm.trans h
  | loopFailed r₀ => exact h'.symm.trans h

namespace Readers

/-- What is known about the reader `r`. -/
def status (s : Readers) (r : Ref) : Status :=
  { pc := s.pc (some r)
    buffer := s.buffers.get r
    told := s.told r
    replacements := s.replacements r
    startFailed := s.StartFailed r
    loopFailed := s.LoopFailed r }

variable {d : Device} {s s' : Readers} {r r' : Ref} {t : Option Ref} {o : Outcome}

/-! ### Steps and the status of the readers -/

/-- A step is a statement of the service or a step of a reader. -/
theorem step_cases (h : step d s t o = some s') :
  (∃ c ret, s.pc t = .call c ret ∧ s' = callStep t ret s c) ∨
  (∃ r p a, t = some r ∧ s.pc (some r) = .run p ∧
    (s.buffers.get r).runStep d r p o = some a ∧ s' = ran r a s)
  := by
  unfold step at h
  cases hpc : s.pc t with
  | call c ret =>
      rw [hpc] at h
      obtain ⟨-, hs⟩ := Option.ite_none_right_eq_some.mp h
      left
      exact ⟨c, ret, rfl, (Option.some.inj hs).symm⟩
  | run p =>
      right
      rw [hpc] at h
      cases t with
      | none => cases h
      | some r =>
          obtain ⟨a, ha, hs⟩ := Option.map_eq_some_iff.mp h
          exact ⟨r, p, a, rfl, hpc, ha, hs.symm⟩

/-- What is seen of a step of a reader is about this reader. -/
theorem about_of_runStep {b : LogcatBuffer} {p : RunPc} {a : Ran}
    (h : b.runStep d r p o = some a) :
  ∀ e ∈ a.events, e.About r
  := by
  intro e he
  revert h
  fun_cases LogcatBuffer.runStep d r b p o <;> intro h <;> cases h <;>
    simp_all [LogcatBuffer.giveUp, LogcatBuffer.callNull, Event.About]

/-- Where another thread is does not matter for the status of a reader. -/
theorem status_goto_of_ne (ht : some r ≠ t) (p : Pc) (s : Readers) :
  (goto t p s).status r = s.status r
  := by
  simp only [status, goto, if_neg ht]
  rfl

theorem status_goto (r : Ref) (p : Pc) (s : Readers) :
  (goto (some r) p s).status r = { s.status r with pc := p }
  := by
  simp only [status, goto, if_true]
  rfl

theorem status_update_of_ne (hr : r' ≠ r) (f : LogcatBuffer → LogcatBuffer) (s : Readers) :
  (update r f s).status r' = s.status r'
  := by
  simp only [status, update, s.buffers.get_modify_of_ne hr]
  rfl

theorem status_update (r : Ref) (f : LogcatBuffer → LogcatBuffer) (s : Readers) :
  (update r f s).status r = { s.status r with buffer := f (s.buffers.get r) }
  := by
  simp only [status, update, Heap.get_modify_self]
  rfl

/-- What is seen of another reader does not matter for the status of a reader. -/
theorem status_see_of_not_about {es : List Event} (hes : ∀ e ∈ es, ¬ e.About r) (s : Readers) :
  (see es s).status r = s.status r
  := by
  have hheard : es.count (.heard r none) = 0 := List.count_eq_zero.mpr fun h => hes _ h rfl
  have hstarted : es.count (.started (some r)) = 0 := List.count_eq_zero.mpr fun h => hes _ h rfl
  have hstart : .startFailed r ∉ es := fun h => hes _ h rfl
  have hloop : .loopFailed r ∉ es := fun h => hes _ h rfl
  simp [status, see, told, replacements, StartFailed, LoopFailed, hheard, hstarted, hstart, hloop]

/-- A step of a reader changes its status. -/
theorem status_ran (r : Ref) (a : Ran) (s : Readers) :
  (ran r a s).status r = (s.status r).ran r a
  := by
  simp [status, ran, see, goto, update, Status.ran, told, replacements, StartFailed, LoopFailed]

/-- A step of a reader does not change the status of the others. -/
theorem status_ran_of_ne {p : RunPc} {a : Ran} (ha : (s.buffers.get r).runStep d r p o = some a)
    (hr : r' ≠ r) :
  (ran r a s).status r' = s.status r'
  := by
  rw [ran, status_see_of_not_about, status_goto_of_ne, status_update_of_ne hr]
  · intro h
    apply hr (Option.some.inj h)
  · intro e he h
    apply hr ((about_of_runStep ha e he).eq h)

/-- Constructing a reader does not change the status of the readers constructed before, except that
of the reader that constructs it. -/
theorem status_construct_of_ne (ht : some r ≠ t) (hr : r ≠ s.buffers.next) :
  (construct t s).status r = s.status r
  := by
  rw [construct, status_see_of_not_about, status_goto_of_ne]
  · simp only [status, s.buffers.get_alloc_of_ne hr]
    rfl
  · intro h
    apply hr (Option.some.inj h)
  · intro e he h
    cases List.mem_singleton.mp he
    apply ht h.symm

/-! ### The readers take turns -/

/-- The reader `b` has been constructed last.  The readers before it have handed over, except
possibly the reader whose thread is `t`. -/
structure Turn (t : Option Ref) (b : Ref) (s : Readers) : Prop where
  next : s.buffers.next = b + 1
  past : ∀ r < b, some r ≠ t → (s.status r).Past
  later : ∀ r, b < r → (s.status r).Unstarted

/-- No reader has been constructed. -/
structure Before (s : Readers) : Prop where
  next : s.buffers.next = 0
  main : s.pc none = .call .construct .finished
  later : ∀ r, (s.status r).Unstarted

/-- The thread `t` has constructed the reader `b` and not yet set its listener.  It is the main
thread or the thread of a reader that hands over. -/
structure Handing (t : Option Ref) (ret : RunPc) (b : Ref) (s : Readers) : Prop
    extends Turn t b s where
  starter : s.pc t = .call (.assign b) ret ∨ (s.pc t = .call .listen ret ∧ s.mLogcat = some b)
  returns : (t = none ∧ ret = .finished) ∨ (s.pc none = .run .finished ∧
    ∃ r < b, t = some r ∧ ret = .forget ∧ (s.status r).Replaced)

/-- The reader that has been constructed has not taken a step. -/
structure Starting (t : Option Ref) (ret : RunPc) (b : Ref) (s : Readers) : Prop
    extends Handing t ret b s where
  new : (s.status b).New

/-- The reader `b` has been constructed last, and its listener has been set. -/
structure Running (b : Ref) (s : Readers) : Prop extends Turn none b s where
  main : s.pc none = .run .finished
  logcat : s.mLogcat = some b
  active : (s.status b).Active

/-- What holds in every state. -/
def Inv (s : Readers) : Prop :=
  Before s ∨ (∃ t ret b, Starting t ret b s) ∨ ∃ b, Running b s

/-- The listener of a reader is set before its first step. -/
def ListensFirst (s : Readers) : Option Ref × Outcome → Prop
  | (some r, _) => s.pc (some r) = .run .clear → (s.buffers.get r).listener = true
  | (none, _) => True

instance (s : Readers) (a : Option Ref × Outcome) : Decidable (ListensFirst s a) :=
  match a with
  | (some r, _) =>
      inferInstanceAs (Decidable (s.pc (some r) = .run .clear → (s.buffers.get r).listener = true))
  | (none, _) => inferInstanceAs (Decidable True)

theorem pc_ran_of_ne (ht : t ≠ some r) (a : Ran) (s : Readers) :
  (ran r a s).pc t = s.pc t
  := by
  simp only [ran, see, goto, update, if_neg ht]

/-- A reader that has not been constructed takes no step. -/
theorem step_unstarted (h : (s.status r).Unstarted) (hstep : step d s (some r) o = some s') :
  False
  := by
  have hpc : s.pc (some r) = .run .unstarted := h.pc
  obtain ⟨c, ret, hcall, -⟩ | ⟨r₀, p, a, ⟨⟩, hrun, ha, -⟩ := step_cases hstep
  · cases hpc.symm.trans hcall
  · cases hpc.symm.trans hrun
    cases o <;> cases ha

/-- A reader other than the last takes a step only after it has handed over, and the step changes
the status of no other reader. -/
theorem Turn.step {b : Ref} (h : Turn t b s) (ht : some r ≠ t) (hr : r ≠ b)
    (hstep : step d s (some r) o = some s') :
  Turn t b s' ∧ s'.mLogcat = s.mLogcat ∧ (∀ t', t' ≠ some r → s'.pc t' = s.pc t') ∧
    ∀ r', r' ≠ r → s'.status r' = s.status r'
  := by
  rcases lt_or_gt_of_ne hr with hlt | hgt
  · have hpast := h.past r hlt ht
    obtain ⟨c, ret, hcall, -⟩ | ⟨r₀, p, a, ⟨⟩, hrun, ha, rfl⟩ := step_cases hstep
    · have hpc := hpast.pc
      rw [show (s.status r).pc = .call c ret from hcall] at hpc
      cases hpc
    · have hother : ∀ r', r' ≠ r → (ran r a s).status r' = s.status r' := fun r' hne =>
        status_ran_of_ne ha hne
      refine ⟨⟨h.next, ?_, ?_⟩, rfl, fun t' ht' => pc_ran_of_ne ht' a s, hother⟩
      · intro r' hr' ht'
        by_cases heq : r' = r
        · subst heq
          rw [status_ran]
          apply hpast.ran hrun ha
        · rw [hother r' heq]
          apply h.past r' hr' ht'
      · intro r' hr'
        rw [hother r' (lt_trans hlt hr').ne']
        apply h.later r' hr'
  · exact (step_unstarted (h.later r hgt) hstep).elim

/-- The reader that is constructed is new. -/
theorem new_construct (h : (s.status s.buffers.next).Unstarted) (ht : some s.buffers.next ≠ t)
    (ret : RunPc) :
  ((callStep t ret s .construct).status s.buffers.next).New
  := by
  have hnot : ∀ e ∈ [Event.started t], ¬ e.About s.buffers.next := by
    intro e he hstarted
    cases List.mem_singleton.mp he
    apply ht hstarted.symm
  rw [callStep, status_goto_of_ne ht, construct, status_see_of_not_about hnot, status_goto]
  exact ⟨rfl, Heap.get_alloc_next _ _, h.told, h.replacements⟩

/-- The reader that constructs the next one has replaced itself. -/
theorem replaced_construct (hr : r ≠ s.buffers.next) (htold : (s.status r).told = 1)
    (hreplacements : (s.status r).replacements = 0) (hrun : (s.status r).buffer.run = false)
    (ret : RunPc) :
  ((callStep (some r) ret s .construct).status r).Replaced
  := by
  have hseen : (callStep (some r) ret s .construct).seen = s.seen ++ [.started (some r)] := rfl
  constructor
  · change ((s.buffers.alloc LogcatBuffer.new).get r).run = false
    rw [s.buffers.get_alloc_of_ne hr]
    apply hrun
  · change (callStep (some r) ret s .construct).told r = 1
    rw [told, hseen, List.count_append]
    exact htold
  · change (callStep (some r) ret s .construct).replacements r = 1
    rw [replacements, hseen, List.count_append, List.count_singleton_self]
    exact congrArg (· + 1) hreplacements

/-- Constructing a reader changes the status of no reader constructed before, except that of the
reader that constructs it. -/
theorem status_callConstruct_of_ne (ht : some r ≠ t) (hr : r ≠ s.buffers.next) (ret : RunPc) :
  (callStep t ret s .construct).status r = s.status r
  := by
  rw [callStep, status_goto_of_ne ht, status_construct_of_ne ht hr]

theorem inv_initial :
  Inv initial
  := Or.inl ⟨rfl, rfl, fun _ => ⟨rfl, rfl, rfl⟩⟩

/-- The main thread constructs the first reader. -/
theorem Before.step (h : Before s) (hstep : step d s t o = some s') :
  Starting none .finished 0 s'
  := by
  cases t with
  | some r => exact (step_unstarted (h.later r) hstep).elim
  | none =>
      obtain ⟨c, ret, hcall, rfl⟩ | ⟨r, p, a, ⟨⟩, -⟩ := step_cases hstep
      cases h.main.symm.trans hcall
      rw [← h.next]
      have hother : ∀ r, s.buffers.next < r →
          (callStep none .finished s .construct).status r = s.status r := fun r hr =>
        status_callConstruct_of_ne (Option.some_ne_none r) hr.ne' _
      exact
        { next := rfl
          past := fun r hr _ => by
            rw [h.next] at hr
            exact (Nat.not_lt_zero r hr).elim
          later := fun r hr => by
            rw [hother r hr]
            apply h.later
          starter := Or.inl rfl
          returns := Or.inl ⟨rfl, rfl⟩
          new := new_construct (h.later _) (Option.some_ne_none _) _ }

/-- The main thread has finished `onCreate`. -/
theorem step_main (h : s.pc none = .run .finished) (hstep : step d s none o = some s') :
  False
  := by
  obtain ⟨c, ret, hcall, -⟩ | ⟨r, p, a, ⟨⟩, -⟩ := step_cases hstep
  cases h.symm.trans hcall

/-- The thread that constructs a reader is not that of this or a later reader. -/
theorem Handing.ne_of_le {ret : RunPc} {b : Ref} (h : Handing t ret b s) (hr : b ≤ r) :
  some r ≠ t
  := by
  rintro rfl
  obtain ⟨⟨⟩, -⟩ | ⟨-, r', hlt, ⟨⟩, -⟩ := h.returns
  exact (Nat.not_le_of_lt hlt) hr

theorem status_assign_of_ne (hr : some r ≠ t) (ret : RunPc) (b : Ref) (s : Readers) :
  (callStep t ret s (.assign b)).status r = s.status r
  := status_goto_of_ne hr _ _

theorem Handing.assign {ret : RunPc} {b : Ref} (h : Handing t ret b s) :
  Handing t ret b (callStep t ret s (.assign b))
  := by
  refine ⟨⟨h.next, ?_, ?_⟩, Or.inr ⟨if_pos rfl, rfl⟩, ?_⟩
  · intro r hr ht
    rw [status_assign_of_ne ht]
    apply h.past r hr ht
  · intro r hr
    rw [status_assign_of_ne (h.ne_of_le (le_of_lt hr))]
    apply h.later r hr
  · rcases h.returns with hret | ⟨hmain, r, hr, rfl, hret, hreplaced⟩
    · exact Or.inl hret
    · exact Or.inr ⟨hmain, r, hr, rfl, hret, hreplaced.run, hreplaced.told, hreplaced.replacements⟩

theorem Handing.listen {ret : RunPc} {b : Ref} (h : Handing t ret b s)
    (hlogcat : s.mLogcat = some b)
    (hactive : Status.Active
      { s.status b with buffer := (s.buffers.get b).setOnLineReadListener }) :
  Running b (callStep t ret s .listen)
  := by
  have hcall : callStep t ret s .listen =
      goto t (.run ret) (update b LogcatBuffer.setOnLineReadListener s) := by
    simp only [callStep, hlogcat]
  have hother : ∀ r, some r ≠ t → r ≠ b → (callStep t ret s .listen).status r = s.status r := by
    intro r ht hr
    rw [hcall, status_goto_of_ne ht, status_update_of_ne hr]
  refine ⟨⟨?_, ?_, ?_⟩, ?_, ?_, ?_⟩
  · rw [hcall]
    exact h.next
  · intro r hr _
    by_cases ht : some r = t
    · subst ht
      obtain ⟨⟨⟩, -⟩ | ⟨-, r', -, ⟨⟩, rfl, hreplaced⟩ := h.returns
      rw [hcall, status_goto, status_update_of_ne hr.ne]
      exact ⟨⟨hreplaced.run, hreplaced.told, hreplaced.replacements⟩, trivial⟩
    · rw [hother r ht hr.ne]
      apply h.past r hr ht
  · intro r hr
    rw [hother r (h.ne_of_le (le_of_lt hr)) hr.ne']
    apply h.later r hr
  · rw [hcall]
    rcases h.returns with ⟨rfl, rfl⟩ | ⟨hmain, r, -, rfl, -⟩
    · rfl
    · exact hmain
  · rw [hcall]
    exact hlogcat
  · rw [hcall, status_goto_of_ne (h.ne_of_le (le_refl b)), status_update]
    exact hactive

/-- The threads other than that of the reader that has been constructed leave it as it is, until
its listener is set. -/
theorem Handing.step {ret : RunPc} {b : Ref} {t' : Option Ref} (h : Handing t ret b s)
    (hb : t' ≠ some b) (hstep : step d s t' o = some s') :
  (Handing t ret b s' ∧ s'.status b = s.status b) ∨
    (Status.Active { s.status b with buffer := (s.buffers.get b).setOnLineReadListener } →
      Running b s')
  := by
  by_cases ht : t' = t
  · subst ht
    obtain ⟨c, ret', hcall, rfl⟩ | ⟨r, p, a, rfl, hrun, -⟩ := step_cases hstep
    · obtain hpc | ⟨hpc, hlogcat⟩ := h.starter
      · cases hpc.symm.trans hcall
        left
        exact ⟨h.assign, status_assign_of_ne (h.ne_of_le (le_refl b)) _ _ _⟩
      · cases hpc.symm.trans hcall
        right
        apply h.listen hlogcat
    · obtain hpc | ⟨hpc, -⟩ := h.starter <;> cases hpc.symm.trans hrun
  · left
    cases t' with
    | none =>
        obtain ⟨rfl, -⟩ | ⟨hmain, -⟩ := h.returns
        · exact (ht rfl).elim
        · exact (step_main hmain hstep).elim
    | some r =>
        have hr : r ≠ b := fun heq => hb (congrArg some heq)
        obtain ⟨hturn, hlogcat, hpc, hother⟩ := h.toTurn.step ht hr hstep
        refine ⟨⟨hturn, ?_, ?_⟩, hother b hr.symm⟩
        · rw [hpc t (Ne.symm ht), hlogcat]
          apply h.starter
        · rcases h.returns with hret | ⟨hmain, r', hr', rfl, hret, hreplaced⟩
          · exact Or.inl hret
          · right
            rw [hpc none nofun]
            use hmain, r', hr', rfl, hret
            rw [hother r' (fun heq => ht (congrArg some heq.symm))]
            apply hreplaced

/-- The thread that has constructed a reader sets its listener. -/
theorem Starting.step {ret : RunPc} {b : Ref} {t' : Option Ref} (h : Starting t ret b s)
    (hallowed : ListensFirst s (t', o)) (hstep : step d s t' o = some s') :
  Starting t ret b s' ∨ Running b s'
  := by
  have hb : t' ≠ some b := by
    rintro rfl
    have hlistener := hallowed h.new.pc
    rw [show s.buffers.get b = LogcatBuffer.new from h.new.buffer] at hlistener
    cases hlistener
  rcases h.toHanding.step hb hstep with ⟨hhanding, hstatus⟩ | hrunning
  · left
    refine ⟨hhanding, ?_⟩
    rw [hstatus]
    apply h.new
  · right
    apply hrunning
    rw [Status.Active, show (Status.pc _) = .run .clear from h.new.pc]
    exact { told := h.new.told
            replacements := h.new.replacements
            listener := rfl
            run := Or.inl (congrArg LogcatBuffer.run h.new.buffer) }

/-- When the status of the readers but the last is kept, the last one stays the last. -/
theorem Running.of_status {b : Ref} (h : Running b s) (hnext : s'.buffers.next = s.buffers.next)
    (hmain : s'.pc none = s.pc none) (hlogcat : s'.mLogcat = s.mLogcat)
    (hother : ∀ r, r ≠ b → s'.status r = s.status r) (hactive : (s'.status b).Active) :
  Running b s'
  := by
  refine ⟨⟨hnext.trans h.next, ?_, ?_⟩, hmain.trans h.main, hlogcat.trans h.logcat, hactive⟩
  · intro r hr ht
    rw [hother r hr.ne]
    apply h.past r hr ht
  · intro r hr
    rw [hother r hr.ne']
    apply h.later r hr

/-- The reader constructed last stops itself when it hands over. -/
theorem Running.stopLogcat {b : Ref} (h : Running b s)
    (hpc : s.pc (some b) = .call .stopLogcat .forget) :
  Running b (callStep (some b) .forget s .stopLogcat)
  := by
  have hcall : callStep (some b) .forget s .stopLogcat =
      goto (some b) (.call .construct .forget) (update b LogcatBuffer.stop s) := by
    simp only [callStep, h.logcat]
  obtain ⟨-, -, htold, hreplacements, -⟩ := h.active.call hpc
  rw [hcall]
  refine h.of_status ?_ ?_ ?_ ?_ ?_
  · rfl
  · rfl
  · rfl
  · intro r hr
    rw [status_goto_of_ne (fun heq => hr (Option.some.inj heq)), status_update_of_ne hr]
  · rw [status_goto, status_update]
    exact ⟨rfl, Or.inr rfl, htold, hreplacements, rfl⟩

/-- The reader constructed last constructs the next one. -/
theorem Running.construct {b : Ref} (h : Running b s)
    (hpc : s.pc (some b) = .call .construct .forget) :
  Starting (some b) .forget (b + 1) (callStep (some b) .forget s .construct)
  := by
  obtain ⟨-, -, htold, hreplacements, hrun⟩ := h.active.call hpc
  have hlt : b < s.buffers.next := by
    rw [h.next]
    exact Nat.lt_succ_self b
  rw [← h.next]
  refine ⟨⟨⟨rfl, ?_, ?_⟩, Or.inl (if_pos rfl), Or.inr ⟨h.main, b, hlt, rfl, rfl, ?_⟩⟩, ?_⟩
  · intro r hr ht
    rw [status_callConstruct_of_ne ht hr.ne]
    rw [h.next] at hr
    have hrb : r ≠ b := fun heq => ht (congrArg some heq)
    exact h.past r (lt_of_le_of_ne (Nat.le_of_lt_succ hr) hrb) nofun
  · intro r hr
    have hbr : b < r := lt_trans hlt hr
    rw [status_callConstruct_of_ne (fun heq => hbr.ne' (Option.some.inj heq)) hr.ne']
    apply h.later r hbr
  · apply replaced_construct hlt.ne htold hreplacements hrun
  · exact new_construct (h.later _ hlt) (fun heq => hlt.ne' (Option.some.inj heq)) _

/-- The reader constructed last goes on, or it constructs the next one. -/
theorem Running.step {b : Ref} (h : Running b s) (hstep : step d s t o = some s') :
  Running b s' ∨ Starting (some b) .forget (b + 1) s'
  := by
  cases t with
  | none => exact (step_main h.main hstep).elim
  | some r =>
      by_cases hr : r = b
      · subst hr
        obtain ⟨c, ret, hcall, rfl⟩ | ⟨r₀, p, a, ⟨⟩, hrun, ha, rfl⟩ := step_cases hstep
        · obtain ⟨rfl, rfl | rfl, -⟩ := h.active.call hcall
          · left
            apply h.stopLogcat hcall
          · right
            apply h.construct hcall
        · left
          refine h.of_status ?_ ?_ ?_ ?_ ?_
          · rfl
          · exact pc_ran_of_ne (t := none) nofun a s
          · rfl
          · intro r' hr'
            apply status_ran_of_ne ha hr'
          · rw [status_ran]
            apply h.active.ran hrun ha
      · left
        obtain ⟨hturn, hlogcat, hpc, hother⟩ := h.toTurn.step nofun hr hstep
        refine ⟨hturn, (hpc none nofun).trans h.main, hlogcat.trans h.logcat, ?_⟩
        rw [hother b (Ne.symm hr)]
        apply h.active

theorem inv_step (h : Inv s) (hallowed : ListensFirst s (t, o)) (hstep : step d s t o = some s') :
  Inv s'
  := by
  obtain h | ⟨t', ret, b, h⟩ | ⟨b, h⟩ := h
  · exact Or.inr (Or.inl ⟨_, _, _, h.step hstep⟩)
  · rcases h.step hallowed hstep with h' | h'
    · exact Or.inr (Or.inl ⟨_, _, _, h'⟩)
    · exact Or.inr (Or.inr ⟨_, h'⟩)
  · rcases h.step hstep with h' | h'
    · exact Or.inr (Or.inr ⟨_, h'⟩)
    · exact Or.inr (Or.inl ⟨_, _, _, h'⟩)

theorem inv_of_reachable
    (h : Transition.Reachable (Transition.Guarded ListensFirst (Step d)) initial s) :
  Inv s
  := h.invariant (fun hs hstep => inv_step hs hstep.1 hstep.2) inv_initial

/-- What is known about a reader in every state. -/
theorem Inv.status_cases (h : Inv s) (r : Ref) :
  (s.status r).Unstarted ∨ (s.status r).New ∨ (s.status r).Replaced ∨ (s.status r).Active
  := by
  have hturn : ∀ {t b}, Turn t b s → r ≠ b → some r ≠ t →
      (s.status r).Unstarted ∨ (s.status r).Replaced := by
    intro t b hturn hr ht
    rcases lt_or_gt_of_ne hr with hlt | hgt
    · exact Or.inr (hturn.past r hlt ht).toReplaced
    · exact Or.inl (hturn.later r hgt)
  obtain h | ⟨t, ret, b, h⟩ | ⟨b, h⟩ := h
  · exact Or.inl (h.later r)
  · by_cases hr : r = b
    · subst hr
      exact Or.inr (Or.inl h.new)
    · by_cases ht : some r = t
      · subst ht
        obtain ⟨⟨⟩, -⟩ | ⟨-, r', -, ⟨⟩, -, hreplaced⟩ := h.returns
        exact Or.inr (Or.inr (Or.inl hreplaced))
      · exact (hturn h.toTurn hr ht).imp_right (Or.inr ∘ Or.inl)
  · by_cases hr : r = b
    · subst hr
      exact Or.inr (Or.inr (Or.inr h.active))
    · exact (hturn h.toTurn hr nofun).imp_right (Or.inr ∘ Or.inl)

/-- A reader whose loop is over has handed over once, or it has failed and has not handed over.  No
reader hands over twice, and after `onCreate` the reader constructed last is alive or has failed. -/
structure HandsOver (s : Readers) : Prop where
  ended : ∀ r, (s.status r).LoopOver →
    (s.told r = 1 ∧ s.replacements r = 1) ∨
      ((s.StartFailed r ∨ s.LoopFailed r) ∧ s.told r = 0 ∧ s.replacements r = 0)
  once : ∀ r, s.told r ≤ 1 ∧ s.replacements r ≤ s.told r
  alive : s.pc none = .run .finished →
    ∃ r, s.buffers.next = r + 1 ∧ ((s.status r).Alive ∨ s.StartFailed r ∨ s.LoopFailed r)

/-- When the listener of each reader is set before its first step, the readers hand over to each
other until one of them fails. -/
theorem hands_over
    (h : Transition.Reachable (Transition.Guarded ListensFirst (Step d)) initial s) :
  HandsOver s
  := by
  have hinv := inv_of_reachable h
  refine ⟨?_, ?_, ?_⟩
  · intro r hover
    obtain hr | hr | hr | hr := hinv.status_cases r
    · exact (hr.not_loopOver hover).elim
    · exact (hr.not_loopOver hover).elim
    · exact Or.inl ⟨hr.told, hr.replacements⟩
    · obtain ⟨hsilent, hfailed⟩ := hr.failed_of_loopOver hover
      exact Or.inr ⟨hfailed, hsilent.told, hsilent.replacements⟩
  · intro r
    exact Status.once (hinv.status_cases r)
  · intro hmain
    obtain h | ⟨t, ret, b, h⟩ | ⟨b, h⟩ := hinv
    · cases h.main.symm.trans hmain
    · exact ⟨b, h.next, Or.inl h.new.alive⟩
    · exact ⟨b, h.next, h.active.alive_or_failed⟩

/-- The main thread starts the first reader. -/
def startsFirst : List (Option Ref × Outcome) := List.replicate 3 (none, .returns)

/-- The first reader reads a line and then the end of the stream, and it starts the next one. -/
def readsToEnd : List (Option Ref × Outcome) :=
  startsFirst ++
    ([.returns, .exits 0, .returns, .returns, .returns, .line "read", .returns, .returns, .returns,
      .endOfStream, .returns, .returns, .returns, .returns, .returns, .returns, .returns, .returns,
      .returns] : List Outcome).map (fun o => (some 0, o))

/-- The event log cannot be cleared, and the loop of the first reader is not entered. -/
def cannotClear : List (Option Ref × Outcome) :=
  startsFirst ++ [(some 0, .ioException), (some 0, .returns)]

/-- A run on the phone, in which the listeners are set first. -/
def runPhone (as : List (Option Ref × Outcome)) : Option Readers :=
  Transition.run ListensFirst (fun s a => step (phone [] tick) s a.1 a.2) initial as

/-- The state after a run on the phone. -/
def after (as : List (Option Ref × Outcome)) : Readers := (runPhone as).getD initial

theorem reachable_after {as : List (Option Ref × Outcome)} (h : (runPhone as).isSome) :
  Transition.Reachable (Transition.Guarded ListensFirst (Step (phone [] tick))) initial (after as)
  := by
  obtain ⟨s, hs⟩ := Option.isSome_iff_exists.mp h
  rw [after, hs, Option.getD_some]
  exact Transition.Reachable.of_run hs

/-- The end of the stream is told once, and there is one other reader. -/
theorem hands_over_readsToEnd :
  ((after readsToEnd).status 0).LoopOver ∧ ¬ (after readsToEnd).LoopFailed 0 ∧
    (after readsToEnd).buffers.next = 2 ∧ HandsOver (after readsToEnd)
  := by
  refine ⟨Or.inl rfl, ?_, rfl, hands_over (reachable_after (by decide))⟩
  rw [LoopFailed]
  decide

/-- When the event log cannot be cleared, nobody is told, and there is no other reader. -/
theorem not_hands_over_cannotClear :
  ¬ ∀ s, Transition.Reachable (Transition.Guarded ListensFirst (Step (phone [] tick))) initial s →
    (∀ r, (s.status r).LoopOver → s.told r = 1 ∧ s.replacements r = 1) ∧
    (s.pc none = .run .finished → ∃ r < s.buffers.next, (s.status r).Alive)
  := by
  intro h
  obtain ⟨htold, -⟩ := (h (after cannotClear) (reachable_after (by decide))).1 0 (Or.inl rfl)
  revert htold
  decide

end Readers
