/-
# Structured programs over operations

A program is what a body means before it has nodes: operations, sequences,
choices and loops, where a condition may go either way.  A run of a program
does some operations and then exits.  It may go on behind the program, leave
the enclosing loop or its iteration, end the execution, or be cut.

`Realises` says that the walks of a body from a place are the runs of a program
followed by walks from where each way out of it leads.  There is one rule for
each form of program, so a body is compared with a program by following the
program; only the rule for loops counts moves.
-/
import ContractCalls.Proofs.Body.Walk
import Mathlib.Logic.Function.Basic

namespace ContractCalls

/-- A way out of a program that leads to other code. -/
inductive Way where
  | done
  | broke
  | continued
deriving DecidableEq

/-- How a run of a program ends. -/
inductive Exit where
  | goes (way : Way)
  | ends (ending : Ending)

/-- A structured program. -/
inductive Program where
  | leave (exit : Exit)
  | operation (op : Operation)
  | seq (first second : Program)
  /-- One of two programs. -/
  | either (yes no : Program)
  /-- The program again and again. -/
  | forever (body : Program)
  /-- The program, where one way out of it leads behind it. -/
  | catching (way : Way) (body : Program)

namespace Program

def skip : Program := leave (.goes .done)

/-- Operations in order, and a program behind them. -/
def after (ops : List Operation) (last : Program) : Program :=
  ops.foldr (fun op rest => seq (operation op) rest) last

/-- The body of a loop once; `continue` ends it. -/
def iteration (body : Program) : Program := catching .continued body

/-- A loop that evaluates a test and leaves or goes on; `break` leaves it as well. -/
def loop (test once : Program) : Program :=
  catching .broke (forever (test.seq (either once (leave (.goes .broke)))))

def whileLoop (test body : Program) : Program := loop test (iteration body)

/-- The test comes behind the body, also after a `continue`. -/
def doWhile (body test : Program) : Program :=
  catching .broke (forever ((iteration body).seq (test.seq (either skip (leave (.goes .broke))))))

/-- The step comes behind the body, also after a `continue`; without a test only the body leaves. -/
def forLoop (test : Option Program) (next body : Program) : Program :=
  match test with
  | some test => loop test ((iteration body).seq next)
  | none => catching .broke (forever ((iteration body).seq next))

/-- The runs of a program: what is done, and how it ends.  Every run may be cut. -/
inductive Runs : Program → List Operation → Exit → Prop
  | cut (p : Program) : Runs p [] (.ends .cut)
  | leave (x : Exit) : Runs (leave x) [] x
  | operation (op : Operation) : Runs (operation op) [op] (.goes .done)
  | seq {p q l m x} (first : Runs p l (.goes .done)) (second : Runs q m x) :
      Runs (seq p q) (l ++ m) x
  | stop {p q l x} (first : Runs p l x) (exit : x ≠ .goes .done) : Runs (seq p q) l x
  | yes {p q l x} (run : Runs p l x) : Runs (either p q) l x
  | no {p q l x} (run : Runs q l x) : Runs (either p q) l x
  | again {p l m x} (once : Runs p l (.goes .done)) (rest : Runs (forever p) m x) :
      Runs (forever p) (l ++ m) x
  | last {p l x} (once : Runs p l x) (exit : x ≠ .goes .done) : Runs (forever p) l x
  | caught {w p l} (run : Runs p l (.goes w)) : Runs (catching w p) l (.goes .done)
  | passed {w p l x} (run : Runs p l x) (exit : x ≠ .goes w) : Runs (catching w p) l x

/-! ## The ways out of a program -/

/-- Some run leaves that way. -/
def MayGo (p : Program) (w : Way) : Prop := ∃ l, p.Runs l (.goes w)

/-- The program leaves no loop but its own. -/
def Stays (p : Program) : Prop := ∀ w, p.MayGo w → w = .done

variable {p q : Program} {w : Way}

theorem MayGo.of_leave {x : Exit} (h : (leave x).MayGo w) : x = .goes w := by
  obtain ⟨l, h⟩ := h
  cases h
  rfl

theorem MayGo.of_operation {op : Operation} (h : (operation op).MayGo w) : w = .done := by
  obtain ⟨l, h⟩ := h
  cases h
  rfl

theorem MayGo.of_seq (h : (p.seq q).MayGo w) :
    (p.MayGo w ∧ w ≠ .done) ∨ (p.MayGo .done ∧ q.MayGo w) := by
  obtain ⟨l, h⟩ := h
  cases h with
  | seq first second => exact .inr ⟨⟨_, first⟩, ⟨_, second⟩⟩
  | stop first exit => exact .inl ⟨⟨_, first⟩, fun hw => exit (hw ▸ rfl)⟩

theorem MayGo.of_either (h : (p.either q).MayGo w) : p.MayGo w ∨ q.MayGo w := by
  obtain ⟨l, h⟩ := h
  cases h with
  | yes run => exact .inl ⟨_, run⟩
  | no run => exact .inr ⟨_, run⟩

theorem MayGo.of_catching {v : Way} (h : (catching v p).MayGo w) :
    (p.MayGo w ∧ w ≠ v) ∨ (p.MayGo v ∧ w = .done) := by
  obtain ⟨l, h⟩ := h
  cases h with
  | caught run => exact .inr ⟨⟨_, run⟩, rfl⟩
  | passed run exit => exact .inl ⟨⟨_, run⟩, fun hw => exit (hw ▸ rfl)⟩

theorem MayGo.of_forever (h : (forever p).MayGo w) : p.MayGo w ∧ w ≠ .done := by
  obtain ⟨l, h⟩ := h
  generalize hq : forever p = q at h
  generalize hx : Exit.goes w = x at h
  induction h with
  | again _ _ _ ih => exact ih hq hx
  | last once exit =>
      cases hq
      cases hx
      exact ⟨⟨_, once⟩, fun hw => exit (hw ▸ rfl)⟩
  | _ => cases hq <;> cases hx

theorem stays_leave {x : Exit} (h : ∀ w, x = .goes w → w = .done) : (leave x).Stays :=
  fun w hw => h w hw.of_leave

theorem stays_skip : skip.Stays := stays_leave fun _ h => (Exit.goes.inj h).symm

theorem Stays.seq (hp : p.Stays) (hq : q.Stays) : (p.seq q).Stays := by
  intro w hw
  rcases hw.of_seq with ⟨hw, -⟩ | ⟨-, hw⟩
  · exact hp w hw
  · exact hq w hw

theorem Stays.either (hp : p.Stays) (hq : q.Stays) : (p.either q).Stays := by
  intro w hw
  rcases hw.of_either with hw | hw
  · exact hp w hw
  · exact hq w hw

/-- No `continue` gets out of an iteration. -/
theorem MayGo.of_iteration (h : (iteration p).MayGo w) : w ≠ .continued := by
  rcases h.of_catching with ⟨-, hw⟩ | ⟨-, rfl⟩
  · exact hw
  · exact Way.noConfusion

theorem MayGo.of_iteration_seq (hq : q.Stays) (h : ((iteration p).seq q).MayGo w) :
    w ≠ .continued := by
  rcases h.of_seq with ⟨hw, -⟩ | ⟨-, hw⟩
  · exact hw.of_iteration
  · exact hq w hw ▸ Way.noConfusion

/-- A loop around something no `continue` gets out of stays. -/
theorem stays_catching_forever (h : ∀ w, p.MayGo w → w ≠ .continued) :
    (catching .broke (forever p)).Stays := by
  intro w hw
  rcases hw.of_catching with ⟨hw, hbroke⟩ | ⟨-, hw⟩
  · obtain ⟨hw, hdone⟩ := hw.of_forever
    cases w with
    | done => rfl
    | broke => exact absurd rfl hbroke
    | continued => exact absurd rfl (h _ hw)
  · exact hw

theorem stays_loop (hp : p.Stays) (hq : ∀ w, q.MayGo w → w ≠ .continued) : (loop p q).Stays := by
  refine stays_catching_forever fun w hw => ?_
  rcases hw.of_seq with ⟨hw, -⟩ | ⟨-, hw⟩
  · exact hp w hw ▸ Way.noConfusion
  · rcases hw.of_either with hw | hw
    · exact hq w hw
    · cases hw.of_leave
      exact Way.noConfusion

theorem stays_doWhile (hq : q.Stays) : (doWhile p q).Stays := by
  refine stays_catching_forever fun w hw => ?_
  rcases hw.of_seq with ⟨hw, -⟩ | ⟨-, hw⟩
  · exact hw.of_iteration
  · rcases hw.of_seq with ⟨hw, -⟩ | ⟨-, hw⟩
    · exact hq w hw ▸ Way.noConfusion
    · rcases hw.of_either with hw | hw <;> cases hw.of_leave <;> exact Way.noConfusion

theorem stays_forLoop {test : Option Program} (htest : ∀ r ∈ test, r.Stays) (hq : q.Stays) :
    (forLoop test q p).Stays := by
  cases test with
  | some r => exact stays_loop (htest r rfl) fun w hw => hw.of_iteration_seq hq
  | none => exact stays_catching_forever fun w hw => hw.of_iteration_seq hq

end Program

/-! ## Bodies that realise programs -/

namespace Body

/-- Walks from where an exit leads. -/
def Onward (b : Body) (ways : Way → Place) :
    Exit → Nat → List Operation → Ending → Prop
  | .goes w, N, l, e => b.Walk N (ways w) l e
  | .ends ending, _, l, e => l = [] ∧ e = ending

/-- The walks from the place are the runs of the program and what comes behind them. -/
structure Realises (b : Body) (p : Program) (a : Place) (ways : Way → Place) : Prop where
  sound {N : Nat} {l : List Operation} {e : Ending} (walk : b.Walk N a l e) :
    ∃ l₁ l₂ x M, M ≤ N ∧ l = l₁ ++ l₂ ∧ p.Runs l₁ x ∧ b.Onward ways x M l₂ e
  complete {l₁ l₂ : List Operation} {x : Exit} {N : Nat} {e : Ending} (run : p.Runs l₁ x)
    (onward : b.Onward ways x N l₂ e) : ∃ M, b.Walk M a (l₁ ++ l₂) e

/-- From the first place a walk slides to the second without reading anything. -/
structure Slides (b : Body) (a a' : Place) : Prop where
  forth {N : Nat} {l : List Operation} {e : Ending} (walk : b.Walk N a l e) :
    ∃ M ≤ N, b.Walk M a' l e
  back {N : Nat} {l : List Operation} {e : Ending} (walk : b.Walk N a' l e) :
    ∃ M, b.Walk M a l e

variable {b : Body}

/-- An exit does not mind where the other ways lead. -/
theorem onward_update {ways : Way → Place} {w : Way} {c : Place} {x : Exit} (hx : x ≠ .goes w)
    {N : Nat} {l : List Operation} {e : Ending} :
    b.Onward (Function.update ways w c) x N l e ↔ b.Onward ways x N l e := by
  cases x with
  | ends ending => exact Iff.rfl
  | goes v =>
      have hv : v ≠ w := fun h => hx (h ▸ rfl)
      simp only [Onward, Function.update_of_ne hv]

theorem onward_update_self {ways : Way → Place} {w : Way} {c : Place} {N : Nat}
    {l : List Operation} {e : Ending} :
    b.Onward (Function.update ways w c) (.goes w) N l e ↔ b.Walk N c l e := by
  simp only [Onward, Function.update_self]

namespace Slides

theorem refl (a : Place) : b.Slides a a := ⟨fun h => ⟨_, Nat.le_refl _, h⟩, fun h => ⟨_, h⟩⟩

theorem trans {a a' a'' : Place} (h : b.Slides a a') (h' : b.Slides a' a'') : b.Slides a a'' where
  forth walk := by
    obtain ⟨M, hM, walk⟩ := h.forth walk
    obtain ⟨M', hM', walk⟩ := h'.forth walk
    exact ⟨M', hM'.trans hM, walk⟩
  back walk := by
    obtain ⟨M, walk⟩ := h'.back walk
    exact h.back walk

theorem enter (n : NodeId) : b.Slides (.into n) (.behind n 0) where
  forth walk := by
    cases walk with
    | cut => exact ⟨0, Nat.le_refl _, .cut _⟩
    | enter rest => exact ⟨_, Nat.le_succ _, rest⟩
  back walk := ⟨_, .enter walk⟩

theorem goto {n m : NodeId} {count : Nat} (h : b.Ends n count (.goto m)) :
    b.Slides (.behind n count) (.into m) where
  forth walk := by
    cases walk with
    | cut => exact ⟨0, Nat.le_refl _, .cut _⟩
    | operation here _ => exact absurd (h.no_operation ▸ here) nofun
    | edge ends next rest =>
        cases h.unique ends
        cases List.mem_singleton.mp next
        exact ⟨_, Nat.le_succ _, rest⟩
    | stop ends ending =>
        cases h.unique ends
        exact absurd ending (Ending.terminator?_ne (List.mem_singleton.mpr rfl))
  back walk := ⟨_, .edge h (List.mem_singleton.mpr rfl) walk⟩

end Slides

namespace Realises

variable {p q : Program} {a c : Place} {ways ways' : Way → Place}

/-- Being cut at once is a run of any program. -/
theorem sound_cut (p : Program) (N : Nat) : ∃ l₁ l₂ x M, M ≤ N ∧ [] = l₁ ++ l₂ ∧ p.Runs l₁ x ∧
    b.Onward ways x M l₂ .cut :=
  ⟨[], [], .ends .cut, 0, Nat.zero_le N, rfl, .cut p, rfl, rfl⟩

theorem complete_cut {N : Nat} {l : List Operation} {e : Ending}
    (h : b.Onward ways (.ends .cut) N l e) : ∃ M, b.Walk M a ([] ++ l) e := by
  obtain ⟨rfl, rfl⟩ := h
  exact ⟨0, .cut a⟩

theorem slide (h : b.Slides a c) (hp : b.Realises p c ways) : b.Realises p a ways where
  sound walk := by
    obtain ⟨M, hM, walk⟩ := h.forth walk
    obtain ⟨l₁, l₂, x, M', hM', hl, run, onward⟩ := hp.sound walk
    exact ⟨l₁, l₂, x, M', hM'.trans hM, hl, run, onward⟩
  complete run onward := by
    obtain ⟨M, walk⟩ := hp.complete run onward
    exact h.back walk

/-- The ways that the program may go may slide on. -/
theorem redirect (hp : b.Realises p a ways)
    (h : ∀ w, p.MayGo w → b.Slides (ways w) (ways' w)) : b.Realises p a ways' where
  sound walk := by
    obtain ⟨l₁, l₂, x, M, hM, hl, run, onward⟩ := hp.sound walk
    cases x with
    | ends ending => exact ⟨l₁, l₂, _, M, hM, hl, run, onward⟩
    | goes w =>
        obtain ⟨M', hM', onward⟩ := (h w ⟨l₁, run⟩).forth onward
        exact ⟨l₁, l₂, _, M', hM'.trans hM, hl, run, onward⟩
  complete {l₁ l₂ x N e} run onward := by
    cases x with
    | ends ending => exact hp.complete (N := N) run onward
    | goes w =>
        obtain ⟨M, onward⟩ := (h w ⟨l₁, run⟩).back onward
        exact hp.complete run onward

theorem goes {w : Way} (h : b.Slides a (ways w)) : b.Realises (.leave (.goes w)) a ways := by
  refine slide h ⟨fun {N l e} walk => ?_, fun run onward => ?_⟩
  · exact ⟨[], l, _, N, Nat.le_refl _, rfl, .leave _, walk⟩
  · cases run with
    | cut => exact complete_cut onward
    | leave => exact ⟨_, onward⟩

theorem ends {n : NodeId} {count : Nat} {t : Terminator} {ending : Ending}
    (h : b.Ends n count t) (hending : ending.terminator? = some t) :
    b.Realises (.leave (.ends ending)) (.behind n count) ways where
  sound {N l e} walk := by
    cases walk with
    | cut => exact sound_cut _ _
    | operation here _ => exact absurd (h.no_operation ▸ here) nofun
    | edge ends next rest =>
        cases h.unique ends
        exact absurd hending (Ending.terminator?_ne next)
    | stop ends hstop =>
        cases h.unique ends
        exact ⟨[], [], _, 0, Nat.zero_le _, rfl, .leave _, rfl, Ending.terminator?_inj hstop hending⟩
  complete run onward := by
    cases run with
    | cut => exact complete_cut onward
    | leave =>
        obtain ⟨rfl, rfl⟩ := onward
        exact ⟨0, .stop h hending⟩

theorem operation {n : NodeId} {count : Nat} {op : Operation}
    (h : (b.operationsOf n)[count]? = some op) :
    b.Realises (.operation op) (.behind n count)
      (Function.update ways .done (.behind n (count + 1))) where
  sound {N l e} walk := by
    cases walk with
    | cut => exact sound_cut _ _
    | @operation M _ _ _ rest _ here walk =>
        cases h.symm.trans here
        exact ⟨[op], rest, _, M, Nat.le_succ M, rfl, .operation op, onward_update_self.mpr walk⟩
    | edge ends _ _ => exact absurd (ends.no_operation ▸ h) nofun
    | stop ends _ => exact absurd (ends.no_operation ▸ h) nofun
  complete run onward := by
    cases run with
    | cut => exact complete_cut onward
    | operation => exact ⟨_, .operation h (onward_update_self.mp onward)⟩

/-- What comes behind the first program matters only if it gets there. -/
theorem seq (hp : b.Realises p a (Function.update ways .done c))
    (hq : p.MayGo .done → b.Realises q c ways) : b.Realises (p.seq q) a ways where
  sound walk := by
    obtain ⟨l₁, l₂, x, M, hM, rfl, run, onward⟩ := hp.sound walk
    by_cases hx : x = .goes .done
    · subst hx
      obtain ⟨m₁, m₂, x, M', hM', rfl, run', onward⟩ :=
        (hq ⟨l₁, run⟩).sound (onward_update_self.mp onward)
      exact ⟨l₁ ++ m₁, m₂, x, M', hM'.trans hM, (List.append_assoc _ _ _).symm, .seq run run',
        onward⟩
    · exact ⟨l₁, l₂, x, M, hM, rfl, .stop run hx, (onward_update hx).mp onward⟩
  complete {l₁ l₂ x N e} run onward := by
    cases run with
    | cut => exact complete_cut onward
    | @seq _ _ m₁ m₂ _ first second =>
        obtain ⟨M, walk⟩ := (hq ⟨m₁, first⟩).complete second onward
        rw [List.append_assoc]
        exact hp.complete first (onward_update_self.mpr walk)
    | stop first exit => exact hp.complete first ((onward_update exit).mpr onward)

/-- A branch goes to either node. -/
theorem either {n yes no : NodeId} {count : Nat} {condition : OperandId}
    (h : b.Ends n count (.branch condition yes no)) (hp : b.Realises p (.into yes) ways)
    (hq : b.Realises q (.into no) ways) : b.Realises (p.either q) (.behind n count) ways where
  sound walk := by
    cases walk with
    | cut => exact sound_cut _ _
    | operation here _ => exact absurd (h.no_operation ▸ here) nofun
    | edge ends next rest =>
        cases h.unique ends
        rcases Terminator.mem_successors_branch.mp next with rfl | rfl
        · obtain ⟨l₁, l₂, x, M, hM, hl, run, onward⟩ := hp.sound rest
          exact ⟨l₁, l₂, x, M, hM.trans (Nat.le_succ _), hl, .yes run, onward⟩
        · obtain ⟨l₁, l₂, x, M, hM, hl, run, onward⟩ := hq.sound rest
          exact ⟨l₁, l₂, x, M, hM.trans (Nat.le_succ _), hl, .no run, onward⟩
    | stop ends ending =>
        cases h.unique ends
        exact absurd ending (Ending.terminator?_ne (Terminator.mem_successors_branch.mpr (.inl rfl)))
  complete run onward := by
    cases run with
    | cut => exact complete_cut onward
    | yes run =>
        obtain ⟨M, walk⟩ := hp.complete run onward
        exact ⟨_, .edge h (Terminator.mem_successors_branch.mpr (.inl rfl)) walk⟩
    | no run =>
        obtain ⟨M, walk⟩ := hq.complete run onward
        exact ⟨_, .edge h (Terminator.mem_successors_branch.mpr (.inr rfl)) walk⟩

/-- A loop starts on the way into its first node, so that each time around takes a move. -/
theorem forever {n : NodeId}
    (hp : b.Realises p (.behind n 0) (Function.update ways .done (.into n))) :
    b.Realises (.forever p) (.into n) ways where
  sound {N} := by
    -- one time around leaves fewer moves for the rest
    induction N using Nat.strong_induction_on with
    | _ N ih =>
        intro l e walk
        cases walk with
        | cut => exact sound_cut _ _
        | @enter N _ _ _ rest =>
            obtain ⟨l₁, l₂, x, M, hM, rfl, run, onward⟩ := hp.sound rest
            have hM' : M ≤ N + 1 := hM.trans (Nat.le_succ N)
            by_cases hx : x = .goes .done
            · subst hx
              obtain ⟨m₁, m₂, x, M', hle, rfl, run', onward⟩ :=
                ih M (Nat.lt_succ_of_le hM) (onward_update_self.mp onward)
              exact ⟨l₁ ++ m₁, m₂, x, M', hle.trans hM', (List.append_assoc _ _ _).symm,
                .again run run', onward⟩
            · exact ⟨l₁, l₂, x, M, hM', rfl, .last run hx, (onward_update hx).mp onward⟩
  complete {l₁ l₂ x N e} run onward := by
    generalize hq : Program.forever p = q at run
    induction run with
    | cut => exact complete_cut onward
    | again once _ _ ih =>
        cases hq
        obtain ⟨M, walk⟩ := ih onward rfl
        obtain ⟨M', walk⟩ := hp.complete once (onward_update_self.mpr walk)
        rw [List.append_assoc]
        exact ⟨_, .enter walk⟩
    | last once exit =>
        cases hq
        obtain ⟨M, walk⟩ := hp.complete once ((onward_update exit).mpr onward)
        exact ⟨_, .enter walk⟩
    | _ => cases hq

theorem catching {w : Way} (hp : b.Realises p a (Function.update ways w (ways .done))) :
    b.Realises (.catching w p) a ways where
  sound walk := by
    obtain ⟨l₁, l₂, x, M, hM, rfl, run, onward⟩ := hp.sound walk
    by_cases hx : x = .goes w
    · subst hx
      exact ⟨l₁, l₂, .goes .done, M, hM, rfl, .caught run, onward_update_self.mp onward⟩
    · exact ⟨l₁, l₂, x, M, hM, rfl, .passed run hx, (onward_update hx).mp onward⟩
  complete run onward := by
    cases run with
    | cut => exact complete_cut onward
    | caught run => exact hp.complete run (onward_update_self.mpr onward)
    | passed run exit => exact hp.complete run ((onward_update exit).mpr onward)

/-- Of a program that stays only the place behind it matters. -/
theorem stay (hp : b.Realises p a ways) (hstays : p.Stays)
    (h : b.Slides (ways .done) (ways' .done)) : b.Realises p a ways' :=
  hp.redirect fun w hw => hstays w hw ▸ h

/-! ### Loops

Inside a loop `around` leads to the code before the next iteration and `behind` to the code behind
the loop. -/

/-- The ways out of an iteration of a loop. -/
def inside (ways : Way → Place) (around behind : Place) : Way → Place
  | .done => around
  | .broke => behind
  | .continued => ways .continued

theorem iteration {around behind : Place}
    (hp : b.Realises p a (inside (fun _ => around) around behind)) :
    b.Realises p.iteration a (inside ways around behind) := by
  refine catching (hp.redirect fun w _ => ?_)
  cases w <;> exact .refl _

/-- A loop is a program done forever that breaks to the code behind the loop. -/
theorem catching_forever {n : NodeId}
    (hp : b.Realises p (.behind n 0) (inside ways (.into n) (ways .done))) :
    b.Realises (.catching .broke (.forever p)) (.into n) ways := by
  refine catching (forever (hp.redirect fun w _ => ?_))
  cases w <;> exact .refl _

theorem loop {n m yes no : NodeId} {count : Nat} {condition : OperandId} (hstays : p.Stays)
    (hp : b.Realises p (.behind n 0) ways') (hdone : ways' .done = .behind m count)
    (hbranch : p.MayGo .done → b.Ends m count (.branch condition yes no))
    (hq : b.Realises q (.into yes) (inside ways (.into n) (ways .done)))
    (hno : b.Slides (.into no) (ways .done)) : b.Realises (.loop p q) (.into n) ways := by
  refine catching_forever (seq (c := .behind m count) (hp.stay hstays ?_) fun htest => ?_)
  · rw [hdone, Function.update_self]
    exact .refl (.behind m count)
  · exact either (hbranch htest) hq (goes hno)

/-- The walks from where a program starts that has no way out are its runs. -/
theorem walk_iff_runs (hp : b.Realises p a ways) (hclosed : ∀ w, ¬ p.MayGo w)
    {l : List Operation} {e : Ending} : (∃ N, b.Walk N a l e) ↔ p.Runs l (.ends e) := by
  constructor
  · rintro ⟨N, walk⟩
    obtain ⟨l₁, l₂, x, M, -, rfl, run, onward⟩ := hp.sound walk
    cases x with
    | goes w => exact absurd ⟨l₁, run⟩ (hclosed w)
    | ends ending =>
        obtain ⟨rfl, rfl⟩ := onward
        rwa [List.append_nil]
  · intro run
    obtain ⟨M, walk⟩ := hp.complete (N := 0) run ⟨rfl, rfl⟩
    exact ⟨M, by rwa [List.append_nil] at walk⟩

end Realises

end Body

end ContractCalls
