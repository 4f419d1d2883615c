import Applogr.Concurrency.HandOver

/-!
# One reader at a time

A reader may take steps before its listener is set, and the reader that has constructed it has
steps to take afterwards.  When no stream ends before the listener of its reader is set, only the
reader constructed last passes lines on, and a reader that calls `onLineRead(null)` is the reader
that the service knows.
-/

/-- Where a thread is that has not come to the end of its stream and does not call its listener. -/
def RunPc.Early : RunPc → Prop
  | .clear | .waitFor | .exec | .write | .loop | .readLine | .deliver _ => True
  | _ => False

namespace Status

/-- The listener of the reader has not been set.  The reader is starting or reading, or it has
failed. -/
structure Waiting (st : Status) : Prop extends Silent st where
  listener : st.buffer.listener = false
  pc : ∃ p, st.pc = .run p ∧
    ((p.Early ∧ (st.buffer.run = true ∨ st.Failed)) ∨
      ((p = .destroy ∨ p = .finished) ∧ st.Failed))

variable {d : Device} {r : Ref} {st : Status} {p q : RunPc} {o : Outcome} {a : Ran}

theorem New.waiting (h : st.New) :
  st.Waiting
  := by
  refine ⟨⟨h.told, h.replacements⟩, ?_, .clear, h.pc, Or.inl ⟨trivial, ?_⟩⟩
  · rw [h.buffer]
    rfl
  · left
    rw [h.buffer]
    rfl

theorem Early.active (h : st.Early) (hpc : st.pc = .run p) (hp : p.Early) :
  st.Active
  := by
  rw [Active, hpc]
  cases p with
  | clear | waitFor | exec | write | loop | readLine | deliver => exact h
  | unstarted | calling | stop | tell | forget | check | destroy | finished | crashed =>
      exact hp.elim

theorem Silent.active (h : st.Silent) (hpc : st.pc = .run .destroy ∨ st.pc = .run .finished)
    (hfailed : st.Failed) :
  st.Active
  := by
  rw [Active]
  rcases hpc with hpc | hpc <;> rw [hpc] <;> exact ⟨h, hfailed⟩

/-- A reader whose listener is set goes on. -/
theorem Waiting.listens (h : st.Waiting) :
  Active { st with buffer := st.buffer.setOnLineReadListener }
  := by
  obtain ⟨p, hpc, ⟨hp, hrun⟩ | ⟨hp, hfailed⟩⟩ := h.pc
  · have hearly : Early { st with buffer := st.buffer.setOnLineReadListener } :=
      ⟨⟨h.told, h.replacements⟩, rfl, hrun⟩
    exact hearly.active hpc hp
  · have hsilent : Silent { st with buffer := st.buffer.setOnLineReadListener } :=
      ⟨h.told, h.replacements⟩
    rcases hp with rfl | rfl
    · exact hsilent.active (Or.inl hpc) hfailed
    · exact hsilent.active (Or.inr hpc) hfailed

theorem Waiting.stays (h : st.Waiting) (hrun : st.buffer.run = true ∨ st.Failed) (hq : q.Early) :
  (st.ran r ⟨.run q, st.buffer, []⟩).Waiting
  := by
  refine ⟨h.toSilent.ran _ _ rfl rfl, h.listener, q, rfl, Or.inl ⟨hq, ?_⟩⟩
  exact hrun.imp_right (Failed.ran · _)

theorem Waiting.fails (h : st.Waiting) {e : Event} (he : e = .startFailed r ∨ e = .loopFailed r)
    (hq : q.Early) :
  (st.ran r (st.buffer.giveUp e q)).Waiting
  := by
  rcases he with rfl | rfl
  · refine ⟨h.toSilent.ran _ _ rfl rfl, h.listener, q, rfl, Or.inl ⟨hq, Or.inr (Or.inl ?_)⟩⟩
    exact Or.inr (List.mem_singleton_self _)
  · refine ⟨h.toSilent.ran _ _ rfl rfl, h.listener, q, rfl, Or.inl ⟨hq, Or.inr (Or.inr ?_)⟩⟩
    exact Or.inr (List.mem_singleton_self _)

/-- A reader whose listener has not been set reads on, as long as its stream does not end. -/
theorem Waiting.ran (h : st.Waiting) (hpc : st.pc = .run p) (hend : o ≠ .endOfStream)
    (ha : st.buffer.runStep d r p o = some a) :
  (st.ran r a).Waiting
  := by
  obtain ⟨p', hpc', hp⟩ := h.pc
  obtain rfl : p = p' := Pc.run.inj (hpc.symm.trans hpc')
  obtain ⟨hearly, hrun⟩ | ⟨rfl | rfl, hfailed⟩ := hp
  · cases p with
    | clear =>
        cases o <;> cases ha
        · exact h.stays hrun trivial
        · exact h.fails (Or.inl rfl) trivial
    | waitFor =>
        cases o with
        | exits code =>
            rw [LogcatBuffer.runStep] at ha
            split at ha
            · cases ha
              exact h.stays hrun trivial
            · cases ha
              exact h.fails (Or.inl rfl) trivial
        | interrupted =>
            cases ha
            exact h.fails (Or.inl rfl) trivial
        | returns | line | endOfStream | ioException | throws => cases ha
    | exec =>
        cases o with
        | returns =>
            rw [LogcatBuffer.runStep] at ha
            split at ha
            · cases ha
              exact h.stays hrun trivial
            · cases ha
              exact h.stays hrun trivial
        | ioException =>
            cases ha
            exact h.fails (Or.inl rfl) trivial
        | exits | interrupted | line | endOfStream | throws => cases ha
    | write =>
        cases o <;> cases ha
        · exact h.stays hrun trivial
        · exact h.fails (Or.inl rfl) trivial
    | loop =>
        cases o <;> cases ha
        cases hb : st.buffer.run with
        | true => exact h.stays hrun trivial
        | false =>
            have hfailed : st.Failed := by
              apply hrun.resolve_left
              rw [hb]
              apply Bool.false_ne_true
            refine ⟨h.toSilent.ran _ _ rfl rfl, h.listener, .destroy, rfl, Or.inr ⟨Or.inl rfl, ?_⟩⟩
            apply hfailed.ran
    | readLine =>
        cases o with
        | line read =>
            cases ha
            exact h.stays hrun trivial
        | ioException =>
            cases ha
            exact h.fails (Or.inr rfl) trivial
        | endOfStream => exact absurd rfl hend
        | returns | exits | interrupted | throws => cases ha
    | deliver read =>
        cases o <;> simp only [LogcatBuffer.runStep, h.listener] at ha <;> cases ha
        exact h.stays hrun trivial
    | unstarted | calling | stop | tell | forget | check | destroy | finished | crashed =>
        exact hearly.elim
  · cases o <;> cases ha <;>
      exact ⟨h.toSilent.ran _ _ rfl rfl, h.listener, .finished, rfl,
        Or.inr ⟨Or.inr rfl, hfailed.ran _⟩⟩
  · cases o <;> cases ha

end Status

namespace Readers

variable {d : Device} {s s' : Readers} {r r' : Ref} {t : Option Ref} {o : Outcome}

/-- The stream of a reader does not end before its listener has been set. -/
def ListensBeforeEnd (s : Readers) : Option Ref × Outcome → Prop
  | (some r, .endOfStream) => (s.buffers.get r).listener = true
  | _ => True

instance (s : Readers) (a : Option Ref × Outcome) : Decidable (ListensBeforeEnd s a) := by
  unfold ListensBeforeEnd
  split <;> infer_instance

/-- The thread `t` has constructed the reader `b`, which may have taken steps, and not yet set its
listener. -/
structure Opening (t : Option Ref) (ret : RunPc) (b : Ref) (s : Readers) : Prop
    extends Handing t ret b s where
  waiting : (s.status b).Waiting

/-- What holds in every state when no stream ends before the listener of its reader is set. -/
def InTurn (s : Readers) : Prop :=
  Before s ∨ (∃ t ret b, Opening t ret b s) ∨ ∃ b, Running b s

theorem Starting.opening {ret : RunPc} {b : Ref} (h : Starting t ret b s) :
  Opening t ret b s
  := ⟨h.toHanding, h.new.waiting⟩

/-- The reader that has been constructed leaves the thread that constructs it as it is. -/
theorem Handing.ran_last {ret p : RunPc} {b : Ref} {a : Ran} (h : Handing t ret b s)
    (ha : (s.buffers.get b).runStep d b p o = some a) :
  Handing t ret b (ran b a s)
  := by
  have hother : ∀ r, r ≠ b → (ran b a s).status r = s.status r := fun r hr => status_ran_of_ne ha hr
  refine ⟨⟨h.next, ?_, ?_⟩, ?_, ?_⟩
  · intro r hr ht
    rw [hother r hr.ne]
    apply h.past r hr ht
  · intro r hr
    rw [hother r hr.ne']
    apply h.later r hr
  · rw [pc_ran_of_ne (h.ne_of_le (le_refl b)).symm]
    apply h.starter
  · rcases h.returns with hret | ⟨hmain, r, hr, rfl, hret, hreplaced⟩
    · exact Or.inl hret
    · right
      rw [pc_ran_of_ne (Option.some_ne_none b).symm]
      use hmain, r, hr, rfl, hret
      rw [hother r hr.ne]
      apply hreplaced

/-- Until its listener is set, the reader that has been constructed starts and reads. -/
theorem Opening.step {ret : RunPc} {b : Ref} {t' : Option Ref} (h : Opening t ret b s)
    (hallowed : ListensBeforeEnd s (t', o)) (hstep : step d s t' o = some s') :
  Opening t ret b s' ∨ Running b s'
  := by
  by_cases hb : t' = some b
  · subst hb
    left
    obtain ⟨p, hpc, -⟩ := h.waiting.pc
    obtain ⟨c, ret', hcall, -⟩ | ⟨r, p', a, ⟨⟩, hrun, ha, rfl⟩ := step_cases hstep
    · cases Eq.trans (Eq.symm hpc) hcall
    · have hend : o ≠ .endOfStream := by
        rintro rfl
        have hlistener : (s.buffers.get b).listener = true := hallowed
        rw [show (s.buffers.get b).listener = false from h.waiting.listener] at hlistener
        cases hlistener
      refine ⟨h.toHanding.ran_last ha, ?_⟩
      rw [status_ran]
      apply h.waiting.ran hrun hend ha
  · rcases h.toHanding.step hb hstep with ⟨hhanding, hstatus⟩ | hrunning
    · left
      refine ⟨hhanding, ?_⟩
      rw [hstatus]
      apply h.waiting
    · right
      apply hrunning
      apply h.waiting.listens

theorem inTurn_step (h : InTurn s) (hallowed : ListensBeforeEnd s (t, o))
    (hstep : step d s t o = some s') :
  InTurn s'
  := by
  obtain h | ⟨t', ret, b, h⟩ | ⟨b, h⟩ := h
  · exact Or.inr (Or.inl ⟨_, _, _, (h.step hstep).opening⟩)
  · rcases h.step hallowed hstep with h' | h'
    · exact Or.inr (Or.inl ⟨_, _, _, h'⟩)
    · exact Or.inr (Or.inr ⟨_, h'⟩)
  · rcases h.step hstep with h' | h'
    · exact Or.inr (Or.inr ⟨_, h'⟩)
    · exact Or.inr (Or.inl ⟨_, _, _, h'.opening⟩)

theorem inTurn_of_reachable
    (h : Transition.Reachable (Transition.Guarded ListensBeforeEnd (Step d)) initial s) :
  InTurn s
  := by
  apply h.invariant (I := InTurn) (fun hs hstep => inTurn_step hs hstep.1 hstep.2)
  exact Or.inl ⟨rfl, rfl, fun _ => ⟨rfl, rfl, rfl⟩⟩

/-! ### The right to deliver -/

/-- On its own the reader gets to a line that it passes on to its listener. -/
def CanDeliver (d : Device) (s : Readers) (r : Ref) : Prop :=
  ∃ s' read, Transition.Reachable (fun s o s' => step d s (some r) o = some s') s s' ∧
    s'.pc (some r) = .run (.deliver read) ∧ (s'.buffers.get r).listener = true

/-- The reader has no listener and does not get one from itself, or it is about to drop it. -/
inductive Deaf (r : Ref) (s : Readers) : Prop where
  | unstarted (hpc : s.pc (some r) = .run .unstarted)
  | run (p : RunPc) (hpc : s.pc (some r) = .run p) (hp : p ≠ .calling)
      (hlistener : (s.buffers.get r).listener = false)
  | forget (hpc : s.pc (some r) = .run .forget)
  | assign (b : Ref) (hb : b ≠ r) (hpc : s.pc (some r) = .call (.assign b) .forget)
  | listen (b : Ref) (hb : b ≠ r) (hpc : s.pc (some r) = .call .listen .forget)
      (hlogcat : s.mLogcat = some b)

/-- Without a listener the thread stays in `run`, and it calls nobody. -/
theorem deaf_of_runStep {b : LogcatBuffer} {p : RunPc} {a : Ran} (hb : b.listener = false)
    (h : b.runStep d r p o = some a) :
  (∃ q, a.pc = .run q ∧ q ≠ .calling) ∧ a.buffer.listener = false
  := by
  revert h
  fun_cases LogcatBuffer.runStep d r b p o <;> intro h <;> cases h <;>
    simp_all [LogcatBuffer.giveUp, LogcatBuffer.stop, LogcatBuffer.forgetListener] <;>
    split <;> simp

theorem Deaf.step (h : Deaf r s) (hstep : step d s (some r) o = some s') :
  Deaf r s'
  := by
  obtain ⟨c, ret, hcall, rfl⟩ | ⟨r₀, p, a, ⟨⟩, hrun, ha, rfl⟩ := step_cases hstep
  · cases h with
    | unstarted hpc => cases hpc.symm.trans hcall
    | run p hpc hp hlistener => cases hpc.symm.trans hcall
    | forget hpc => cases hpc.symm.trans hcall
    | assign b hb hpc =>
        cases hpc.symm.trans hcall
        exact .listen b hb (if_pos rfl) rfl
    | listen b hb hpc hlogcat =>
        cases hpc.symm.trans hcall
        apply Deaf.forget
        rw [callStep, hlogcat]
        exact if_pos rfl
  · have hpc' : (ran r a s).pc (some r) = a.pc := if_pos rfl
    have hbuffer : (ran r a s).buffers.get r = a.buffer :=
      s.buffers.get_modify_self r (fun _ => a.buffer)
    cases h with
    | unstarted hpc =>
        cases hpc.symm.trans hrun
        cases o <;> cases ha
    | run p' hpc hp hlistener =>
        obtain ⟨⟨q, hq, hne⟩, hl⟩ := deaf_of_runStep hlistener ha
        apply Deaf.run q _ hne
        · rw [hbuffer, hl]
        · rw [hpc', hq]
    | forget hpc =>
        cases hpc.symm.trans hrun
        cases o <;> cases ha
        have hne : RunPc.check ≠ .calling := by simp
        exact .run .check hpc' hne (congrArg LogcatBuffer.listener hbuffer)
    | assign b hb hpc => cases hpc.symm.trans hrun
    | listen b hb hpc hlogcat => cases hpc.symm.trans hrun

theorem Deaf.not_canDeliver (h : Deaf r s) :
  ¬ CanDeliver d s r
  := by
  rintro ⟨s', read, hreach, hdeliver, hlistener⟩
  have h' := hreach.invariant (fun hs hstep => Deaf.step hs hstep) h
  cases h' with
  | unstarted hpc => cases hpc.symm.trans hdeliver
  | run p hpc hp hl => cases hl.symm.trans hlistener
  | forget hpc => cases hpc.symm.trans hdeliver
  | assign b hb hpc => cases hpc.symm.trans hdeliver
  | listen b hb hpc hlogcat => cases hpc.symm.trans hdeliver

/-- The reader is not in a call, and it is not about to stop the reader that the service knows. -/
theorem Deaf.not_calls (h : Deaf r s) :
  s.pc (some r) ≠ .run .calling ∧ ∀ ret, s.pc (some r) ≠ .call .stopLogcat ret
  := by
  cases h with
  | unstarted hpc => simp [hpc]
  | run p hpc hp hlistener => simp [hpc, hp]
  | forget hpc => simp [hpc]
  | assign b hb hpc => simp [hpc]
  | listen b hb hpc hlogcat => simp [hpc]

theorem deaf_of_past (h : (s.status r).Past) :
  Deaf r s
  := by
  have hp := h.pc
  cases hpc : (s.status r).pc with
  | call c ret =>
      rw [hpc] at hp
      exact hp.elim
  | run p =>
      rw [hpc] at hp
      cases p with
      | forget => exact .forget hpc
      | check | loop | destroy | finished => exact .run _ hpc nofun hp
      | unstarted | clear | waitFor | exec | write | readLine | deliver | calling | stop | tell
      | crashed => exact hp.elim

theorem Turn.deaf {b : Ref} (h : Turn t b s) (ht : some r ≠ t) (hr : r ≠ b) :
  Deaf r s
  := by
  rcases lt_or_gt_of_ne hr with hlt | hgt
  · exact deaf_of_past (h.past r hlt ht)
  · exact .unstarted (h.later r hgt).pc

/-- Only a reader that has been constructed last and has a listener is not deaf. -/
theorem InTurn.deaf_or_running (h : InTurn s) (r : Ref) :
  Deaf r s ∨ Running r s
  := by
  obtain h | ⟨t, ret, b, h⟩ | ⟨b, h⟩ := h
  · exact Or.inl (.unstarted (h.later r).pc)
  · left
    by_cases hr : r = b
    · subst hr
      obtain ⟨p, hpc, hp⟩ := h.waiting.pc
      apply Deaf.run p hpc _ h.waiting.listener
      rintro rfl
      obtain ⟨hearly, -⟩ | ⟨hover, -⟩ := hp
      · exact hearly
      · rcases hover with heq | heq <;> cases heq
    · by_cases ht : some r = t
      · subst ht
        obtain ⟨⟨⟩, -⟩ | ⟨-, r', -, ⟨⟩, rfl, -⟩ := h.returns
        obtain hpc | ⟨hpc, hlogcat⟩ := h.starter
        · exact .assign b (Ne.symm hr) hpc
        · exact .listen b (Ne.symm hr) hpc hlogcat
      · exact h.toTurn.deaf ht hr
  · by_cases hr : r = b
    · subst hr
      exact Or.inr h
    · exact Or.inl (h.toTurn.deaf nofun hr)

/-- At most one reader feeds the service, and the service knows the reader that hands over. -/
structure OneFeeds (d : Device) (s : Readers) : Prop where
  deliver : ∀ r r', s.CanDeliver d r → s.CanDeliver d r' → r = r'
  calling : ∀ r r', s.pc (some r) = .run .calling → s.pc (some r') = .run .calling → r = r'
  null : ∀ r ret, s.pc (some r) = .call .stopLogcat ret → s.mLogcat = some r

/-- However the threads take their steps, at most one reader feeds the service, when no stream ends
before the listener of its reader is set. -/
theorem one_feeds
    (h : Transition.Reachable (Transition.Guarded ListensBeforeEnd (Step d)) initial s) :
  OneFeeds d s
  := by
  have hinv := inTurn_of_reachable h
  have hunique : ∀ {r r'}, Running r s → Running r' s → r = r' := by
    intro r r' hr hr'
    exact Nat.succ.inj (hr.next.symm.trans hr'.next)
  have hdeliver : ∀ {r}, s.CanDeliver d r → Running r s := fun {r} hr =>
    (hinv.deaf_or_running r).resolve_left (fun hdeaf => hdeaf.not_canDeliver hr)
  have hcalling : ∀ {r}, s.pc (some r) = .run .calling → Running r s := fun {r} hr =>
    (hinv.deaf_or_running r).resolve_left (fun hdeaf => hdeaf.not_calls.1 hr)
  constructor
  · intro r r' hr hr'
    apply hunique (hdeliver hr) (hdeliver hr')
  · intro r r' hr hr'
    apply hunique (hcalling hr) (hcalling hr')
  · intro r ret hr
    apply ((hinv.deaf_or_running r).resolve_left (fun hdeaf => hdeaf.not_calls.2 ret hr)).logcat

/-- Both readers take a step before their listeners are set, and the second one reads a line before
the first one drops its listener. -/
def lateListeners : List (Option Ref × Outcome) :=
  [(none, .returns), (some 0, .returns), (none, .returns), (none, .returns)] ++
    ([.exits 0, .returns, .returns, .returns, .endOfStream, .returns, .returns, .returns,
      .returns] : List Outcome).map (fun o => (some 0, o)) ++
    [(some 1, .returns), (some 0, .returns), (some 0, .returns)] ++
    ([.exits 0, .returns, .returns, .returns, .line "read", .returns] : List Outcome).map
      (fun o => (some 1, o))

/-- The run, in which no stream ends before the listener of its reader is set. -/
def runLate : Option Readers :=
  Transition.run ListensBeforeEnd (fun s a => step (phone [] tick) s a.1 a.2) initial lateListeners

/-- The second reader passes a line on while the first one still has its listener. -/
theorem one_feeds_lateListeners :
  (runLate.getD initial).pc (some 0) = .run .forget ∧
    (runLate.getD initial).pc (some 1) = .run .calling ∧
    ((runLate.getD initial).buffers.get 0).listener = true ∧
    OneFeeds (phone [] tick) (runLate.getD initial)
  := by
  refine ⟨by decide, by decide, by decide, ?_⟩
  have hsome : runLate.isSome := by decide
  obtain ⟨s, hs⟩ := Option.isSome_iff_exists.mp hsome
  rw [hs, Option.getD_some]
  exact one_feeds (Transition.Reachable.of_run hs)

end Readers
