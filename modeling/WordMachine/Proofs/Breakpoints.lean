import WordMachine.Proofs.LoadedLength
import WordMachine.Proofs.Locality
import WordMachine.Proofs.OrderedSearch

/-! # Breakpoints are a sorted set

The breakpoints of a debugger stand in increasing order, each of them once, whatever was asked of the
debugger before.  So they are a set: an address is in it if and only if it was last added and not removed.

* `Request.Adds`, `Request.Removes` : the requests for a breakpoint, by a command or without.
* `Request.marks_of_answer` : what a request does to the breakpoints.
* `Marked` : the addresses for which a list of requests leaves a breakpoint.
* `Breakpoints.Reflect.run` : the breakpoints are these addresses, in order.
* `Debugger.breakpoints_are_sorted_set` : the statement about all requests to a debugger. -/

namespace WordMachine

/-! ### Requests for a breakpoint -/

open Command (Spells)

theorem Command.Spells.unique {line : String} {c c' : Command} (h : Spells (Text.words line) c)
    (h' : Spells (Text.words line) c') : c = c' :=
  Except.ok.inj ((read_eq_ok_iff.mpr h).symm.trans (read_eq_ok_iff.mpr h'))

namespace Request

/-- The request adds the address to the breakpoints, directly or by a command. -/
inductive Adds (a : Word) : Request → Prop
  | direct : Adds a (.operation (.addBreakpoint a))
  | command {line : String} : Spells (Text.words line) (.addBreakpoint a) →
      Adds a (.operation (.command line))

/-- The request removes the address from the breakpoints, directly or by a command. -/
inductive Removes (a : Word) : Request → Prop
  | direct : Removes a (.operation (.removeBreakpoint a))
  | command {line : String} : Spells (Text.words line) (.removeBreakpoint a) →
      Removes a (.operation (.command line))

theorem Adds.unique {r : Request} {a b : Word} (h : r.Adds a) (h' : r.Adds b) : a = b := by
  cases h with
  | direct =>
      cases h'
      rfl
  | command hs =>
      cases h' with
      | command hs' => exact Command.addBreakpoint.inj (hs.unique hs')

theorem Removes.unique {r : Request} {a b : Word} (h : r.Removes a) (h' : r.Removes b) : a = b := by
  cases h with
  | direct =>
      cases h'
      rfl
  | command hs =>
      cases h' with
      | command hs' => exact Command.removeBreakpoint.inj (hs.unique hs')

theorem Adds.not_removes {r : Request} {a b : Word} (h : r.Adds a) : ¬r.Removes b := by
  intro h'
  cases h with
  | direct => cases h'
  | command hs =>
      cases h' with
      | command hs' => cases hs.unique hs'

/-- Whether a request is of a kind that can change the breakpoints. -/
def mayMark : Request → Bool
  | .operation (.addBreakpoint _) | .operation (.removeBreakpoint _) | .operation (.command _) => true
  | _ => false

theorem Adds.mayMark {r : Request} {a : Word} (h : r.Adds a) : r.mayMark = true := by
  cases h <;> rfl

theorem Removes.mayMark {r : Request} {a : Word} (h : r.Removes a) : r.mayMark = true := by
  cases h <;> rfl

/-- What a request does to the breakpoints. -/
inductive Marks (bs : Breakpoints) (r : Request) : Breakpoints → Prop
  | adds {a : Word} : r.Adds a → Marks bs r (bs.insert a)
  | removes {a : Word} : r.Removes a → Marks bs r (bs.remove a)
  | neither : (∀ a, ¬r.Adds a ∧ ¬r.Removes a) → Marks bs r bs

end Request

namespace Debugger

theorem breakpoints_of_settle {ε : Type} {d d' : Debugger} {reply : Except ε Unit → Reply} {x : Reply}
    {y : Except ε Debugger} (h : some (d.settle reply y) = some (x, d'))
    (hy : ∀ d₁, y = .ok d₁ → d₁.breakpoints = d.breakpoints) : d'.breakpoints = d.breakpoints := by
  rcases (Operation.settle_eq h).1 with hok | rfl
  · exact hy d' hok
  · rfl

theorem breakpoints_of_queue {d d' : Debugger} {ws : List Word}
    (h : (d.machine.queue ws).map d.holding = .ok d') : d'.breakpoints = d.breakpoints := by
  cases hq : d.machine.queue ws with
  | error e =>
      rw [hq] at h
      cases h
  | ok m =>
      rw [hq] at h
      cases h
      rfl

theorem breakpoints_of_setRegister {d d' : Debugger} {index : Nat} {value : Word}
    (h : d.setRegister index value = .ok d') : d'.breakpoints = d.breakpoints := by
  unfold setRegister at h
  split at h
  · cases h
  · split at h
    · cases h
      rfl
    · cases h

theorem breakpoints_of_poke {d d' : Debugger} {addr value : Word} (h : d.poke addr value = .ok d') :
    d'.breakpoints = d.breakpoints := by
  unfold poke at h
  split at h
  · cases h
  · cases h
    rfl

end Debugger

namespace Request

open Debugger

theorem breakpoints_apply {op : Operation} {fuel : Nat} {d d' : Debugger} {x : Reply}
    (h : op.apply fuel d = some (x, d')) (hop : (operation op).mayMark = false) :
    d'.breakpoints = d.breakpoints := by
  cases op with
  | addBreakpoint a | removeBreakpoint a | command line => cases hop
  | queue ws | queueLine text => exact breakpoints_of_settle h (fun _ => breakpoints_of_queue)
  | setRegister index value => exact breakpoints_of_settle h (fun _ => breakpoints_of_setRegister)
  | poke addr value => exact breakpoints_of_settle h (fun _ => breakpoints_of_poke)
  | run | runWords ws | runLine text =>
      obtain ⟨y, _, heq⟩ := Option.map_eq_some_iff.mp h
      cases heq
      rfl
  | resume limit =>
      obtain ⟨⟨r, d₁⟩, hresume, heq⟩ := Option.map_eq_some_iff.mp h
      cases heq
      exact (resume_eq_some hresume).2.1
  | _ =>
      cases h
      rfl

/-- Requests of all other kinds leave the breakpoints alone, also those that let the machine run. -/
theorem breakpoints_answer {r : Request} {fuel : Nat} {d d' : Debugger} {x : Answer}
    (h : r.answer fuel d = some (x, d')) (hr : r.mayMark = false) : d'.breakpoints = d.breakpoints := by
  cases r with
  | operation op =>
      obtain ⟨⟨y, d₁⟩, happly, heq⟩ := Option.map_eq_some_iff.mp h
      cases heq
      exact breakpoints_apply happly hr
  | pop =>
      simp only [answer] at h
      split at h <;> cases h <;> rfl
  | setRegister index v =>
      simp only [answer] at h
      split at h <;> cases h <;> rfl
  | peek addr count | list addr count =>
      obtain ⟨y, _, heq⟩ := Option.map_eq_some_iff.mp h
      cases heq
      rfl
  | _ =>
      cases h
      rfl

/-- A command changes the breakpoints only as it says. -/
theorem marks_of_command {line text : String} {fuel : Nat} {d d' : Debugger}
    (h : d.command fuel line = some (text, d')) :
    Marks d.breakpoints (.operation (.command line)) d'.breakpoints := by
  by_cases hadd : ∃ a, Spells (Text.words line) (.addBreakpoint a)
  · obtain ⟨a, hspells⟩ := hadd
    cases (command_of_spells fuel d hspells).symm.trans h
    exact .adds (.command hspells)
  · by_cases hremove : ∃ a, Spells (Text.words line) (.removeBreakpoint a)
    · obtain ⟨a, hspells⟩ := hremove
      cases (command_of_spells fuel d hspells).symm.trans h
      exact .removes (.command hspells)
    · have hsame : d'.breakpoints = d.breakpoints := by
        by_contra hne
        obtain ⟨a, hspells | hspells⟩ := Debugger.marks_of_command h hne
        · exact hadd ⟨a, hspells⟩
        · exact hremove ⟨a, hspells⟩
      rw [hsame]
      refine .neither fun a => ⟨?_, ?_⟩
      · rintro (_ | hspells)
        exact hadd ⟨a, hspells⟩
      · rintro (_ | hspells)
        exact hremove ⟨a, hspells⟩

theorem marks_of_answer {r : Request} {fuel : Nat} {d d' : Debugger} {x : Answer}
    (h : r.answer fuel d = some (x, d')) : Marks d.breakpoints r d'.breakpoints := by
  cases hr : r.mayMark with
  | false =>
      rw [breakpoints_answer h hr]
      refine .neither fun a => ⟨?_, ?_⟩
      · intro hadds
        cases hr.symm.trans hadds.mayMark
      · intro hremoves
        cases hr.symm.trans hremoves.mayMark
  | true =>
      unfold mayMark at hr
      split at hr
      · cases h
        exact .adds .direct
      · cases h
        exact .removes .direct
      · obtain ⟨⟨y, d₁⟩, happly, heq⟩ := Option.map_eq_some_iff.mp h
        cases heq
        obtain ⟨⟨text, d₁⟩, hline, heq⟩ := Option.map_eq_some_iff.mp happly
        cases heq
        exact marks_of_command hline
      · cases hr

end Request

/-- `Marked rs a`: the last of the requests to add or remove the address was one to add it. -/
def Marked (rs : List Request) (a : Word) : Prop :=
  ∃ before r after, rs = before ++ r :: after ∧ r.Adds a ∧ ∀ s ∈ after, ¬s.Adds a ∧ ¬s.Removes a

theorem not_marked_nil (a : Word) : ¬Marked [] a := by
  rintro ⟨before, r, after, h, _⟩
  simp at h

/-- The last request decides if it is one for the address. -/
theorem marked_concat {rs : List Request} {r : Request} {a : Word} :
    Marked (rs ++ [r]) a ↔ r.Adds a ∨ (¬r.Removes a ∧ Marked rs a) := by
  constructor
  · rintro ⟨before, s, after, h, hadds, hafter⟩
    rcases List.eq_nil_or_concat' after with rfl | ⟨after, t, rfl⟩
    · obtain ⟨_, heq⟩ := List.append_inj' h rfl
      cases heq
      exact .inl hadds
    · rw [← List.cons_append, ← List.append_assoc] at h
      obtain ⟨rfl, heq⟩ := List.append_inj' h rfl
      cases heq
      refine .inr ⟨(hafter r (by simp)).2, before, s, after, rfl, hadds, ?_⟩
      intro t ht
      exact hafter t (List.mem_append_left _ ht)
  · rintro (hadds | ⟨hremoves, before, s, after, rfl, hadds, hafter⟩)
    · exact ⟨rs, r, [], rfl, hadds, by simp⟩
    · by_cases hr : r.Adds a
      · exact ⟨_, r, [], rfl, hr, by simp⟩
      · refine ⟨before, s, after ++ [r], by simp, hadds, ?_⟩
        intro t ht
        rcases List.mem_append.mp ht with ht | ht
        · exact hafter t ht
        · obtain rfl := List.mem_singleton.mp ht
          exact ⟨hr, hremoves⟩

/-! ### Breakpoints after requests -/

/-- The breakpoints are those that the requests leave, in increasing order. -/
structure Breakpoints.Reflect (bs : Breakpoints) (rs : List Request) : Prop where
  increasing : bs.Pairwise (· < ·)
  mem_iff : ∀ a, a ∈ bs ↔ Marked rs a

namespace Breakpoints

theorem reflect_ofMachine (m : Machine) : (Debugger.ofMachine m).breakpoints.Reflect [] where
  increasing := .nil
  mem_iff a := by simp [Debugger.ofMachine, not_marked_nil]

theorem Reflect.step {bs bs' : Breakpoints} {rs : List Request} {r : Request} (h : bs.Reflect rs)
    (hr : r.Marks bs bs') : bs'.Reflect (rs ++ [r]) := by
  cases hr with
  | @adds a hadds =>
      refine ⟨pairwise_insert h.increasing a, fun x => ?_⟩
      have hx : r.Adds x ↔ x = a := ⟨fun hx => hx.unique hadds, fun hx => hx ▸ hadds⟩
      rw [mem_insert, marked_concat, hx, h.mem_iff]
      simp [hadds.not_removes]
  | @removes a hremoves =>
      refine ⟨pairwise_remove h.increasing a, fun x => ?_⟩
      have hx : r.Removes x ↔ x = a := ⟨fun hx => hx.unique hremoves, fun hx => hx ▸ hremoves⟩
      have hnot : ¬r.Adds x := fun hadds => hadds.not_removes hremoves
      rw [mem_remove, marked_concat, hx, h.mem_iff]
      simp [hnot, and_comm]
  | neither hnone =>
      refine ⟨h.increasing, fun x => ?_⟩
      rw [marked_concat, h.mem_iff]
      simp [hnone x]

/-- Requests go on from the breakpoints that earlier ones left, so the list of all of them grows at its end. -/
theorem Reflect.run {rs before : List Request} {fuel : Nat} {d d' : Debugger} {xs : List Answer}
    (h : d.breakpoints.Reflect before) (hrun : Request.answers fuel rs d = some (xs, d')) :
    d'.breakpoints.Reflect (before ++ rs) := by
  induction rs generalizing before d xs with
  | nil =>
      cases hrun
      rwa [List.append_nil]
  | cons r rs ih =>
      obtain ⟨y, d₁, ys, hfirst, hrest, rfl⟩ := Debugger.inTurn_cons_eq_some_iff.mp hrun
      have hnext := ih (h.step (Request.marks_of_answer hfirst)) hrest
      rwa [List.append_assoc, List.singleton_append] at hnext

end Breakpoints

/-- The answer to a request for a breakpoint tells whether the requests before it had left one. -/
structure Tells (before : List Request) (r : Request) (x : Answer) : Prop where
  added {a : Word} : r = .operation (.addBreakpoint a) →
    ∃ new, x = .reply (.answer new) ∧ (new = true ↔ ¬Marked before a)
  removed {a : Word} : r = .operation (.removeBreakpoint a) →
    ∃ found, x = .reply (.answer found) ∧ (found = true ↔ Marked before a)
  addedByCommand {line : String} {a : Word} : r = .operation (.command line) →
    Spells (Text.words line) (.addBreakpoint a) →
    (¬Marked before a → x = .reply (.text ("Breakpoint added at " ++ Text.address a.toNat))) ∧
    (Marked before a → x = .reply (.text ("Breakpoint already exists at " ++ Text.address a.toNat)))
  removedByCommand {line : String} {a : Word} : r = .operation (.command line) →
    Spells (Text.words line) (.removeBreakpoint a) →
    (Marked before a → x = .reply (.text ("Breakpoint removed from " ++ Text.address a.toNat))) ∧
    (¬Marked before a → x = .reply (.text ("No breakpoint at " ++ Text.address a.toNat)))

theorem tells_of_answer {before : List Request} {r : Request} {x : Answer} {fuel : Nat} {d d' : Debugger}
    (h : d.breakpoints.Reflect before) (hr : r.answer fuel d = some (x, d')) : Tells before r x where
  added := by
    rintro a rfl
    cases hr
    refine ⟨_, rfl, ?_⟩
    rw [← h.mem_iff]
    simp [Debugger.addBreakpoint]
  removed := by
    rintro a rfl
    cases hr
    refine ⟨_, rfl, ?_⟩
    rw [← h.mem_iff]
    simp [Debugger.removeBreakpoint]
  addedByCommand := by
    rintro line a rfl hspells
    rw [Request.answer, Operation.apply, Debugger.command_of_spells fuel d hspells] at hr
    cases hr
    rw [← h.mem_iff]
    constructor
    · intro ha
      simp [ha]
    · intro ha
      simp [ha]
  removedByCommand := by
    rintro line a rfl hspells
    rw [Request.answer, Operation.apply, Debugger.command_of_spells fuel d hspells] at hr
    cases hr
    rw [← h.mem_iff]
    constructor
    · intro ha
      simp [ha]
    · intro ha
      simp [ha]

theorem Request.tells_of_answers {fuel : Nat} {before after : List Request} {r : Request} {m : Machine}
    {d : Debugger} {xs : List Answer}
    (h : answers fuel (before ++ r :: after) (.ofMachine m) = some (xs, d)) :
    ∃ x, xs[before.length]? = some x ∧ Tells before r x := by
  obtain ⟨ys, d₁, zs, hbefore, hrest, rfl⟩ := Debugger.inTurn_append h
  obtain ⟨x, d₂, zs, hr, _, rfl⟩ := Debugger.inTurn_cons_eq_some_iff.mp hrest
  refine ⟨x, ?_, tells_of_answer ((Breakpoints.reflect_ofMachine m).run hbefore) hr⟩
  simp [← Debugger.length_inTurn hbefore]

namespace Debugger

/-- Continuing stops at the addresses for which the requests left a breakpoint, and passes all others. -/
theorem advanceTo_of_reflect {bs : Breakpoints} {rs : List Request} (h : bs.Reflect rs) {m m₁ : Machine}
    {o : Outcome} (hs : m.step = (.ok o, m₁)) (ho : o.GoesOn) (n : Nat) :
    (Marked rs m₁.core.pc → advanceTo bs (n + 1) m = (.ok (.breakpoint m₁.core.pc), m₁)) ∧
    (¬Marked rs m₁.core.pc → advanceTo bs (n + 1) m = advanceTo bs n m₁) := by
  rw [advanceTo_succ_of_goesOn hs ho, ← h.mem_iff]
  constructor
  · intro ha
    simp [ha]
  · intro ha
    simp [ha]

/-- **Breakpoints are a sorted set.**  Whatever is asked of a debugger that began without breakpoints, its
breakpoints stand in strictly increasing order and are the addresses that were last added and not removed,
by a command or without.  Every request to add an address is answered by whether it was absent, every request
to remove one by whether it was present.  Continuing stops where it arrives at one of them and only there.
With any search that keeps to the order in place of looking at all breakpoints, the answers and the lists are
the same. -/
theorem breakpoints_are_sorted_set (m : Machine) (fuel : Nat) (rs : List Request) (xs : List Answer)
    (d : Debugger) (h : Request.answers fuel rs (ofMachine m) = some (xs, d)) :
    d.breakpoints.Pairwise (· < ·) ∧
    (∀ a, a ∈ d.breakpoints ↔ Marked rs a) ∧
    (∀ before r after, rs = before ++ r :: after →
      ∃ x, xs[before.length]? = some x ∧ Tells before r x) ∧
    (∀ n m₁ o m₂, m₁.step = (.ok o, m₂) → o.GoesOn →
      (Marked rs m₂.core.pc →
        advanceTo d.breakpoints (n + 1) m₁ = (.ok (.breakpoint m₂.core.pc), m₂)) ∧
      (¬Marked rs m₂.core.pc →
        advanceTo d.breakpoints (n + 1) m₁ = advanceTo d.breakpoints n m₂)) ∧
    (∀ find, Breakpoints.IsSearch find → ∀ a,
      d.breakpoints.addAt find a = ((d.addBreakpoint a).1, (d.addBreakpoint a).2.breakpoints) ∧
      d.breakpoints.removeAt find a =
        ((d.removeBreakpoint a).1, (d.removeBreakpoint a).2.breakpoints) ∧
      ((∃ i, find d.breakpoints a = .ok i) ↔ Marked rs a)) := by
  have hreflect : d.breakpoints.Reflect rs := (Breakpoints.reflect_ofMachine m).run h
  refine ⟨hreflect.increasing, hreflect.mem_iff, ?_, ?_, ?_⟩
  · rintro before r after rfl
    exact Request.tells_of_answers h
  · intro n m₁ o m₂ hs ho
    exact advanceTo_of_reflect hreflect hs ho n
  · intro find hfind a
    refine ⟨Breakpoints.addAt_eq hfind hreflect.increasing a,
      Breakpoints.removeAt_eq hfind hreflect.increasing a, ?_⟩
    rw [Breakpoints.exists_find_eq_ok_iff hfind hreflect.increasing, hreflect.mem_iff]

/-- Three instructions that do nothing, and a halt. -/
def idler : Machine := .ofMemory (Memory.holding [21, 21, 21, 0] (by decide))

/-- Two breakpoints are added, the greater one first and twice.  The machine goes on to the smaller one, and
the greater one is removed. -/
def idlerRequests : List Request :=
  [.operation (.addBreakpoint 7), .operation (.command "b 0x2"), .operation (.addBreakpoint 7),
    .operation (.resume none), .operation (.command "rb +7"), .operation (.removeBreakpoint 7)]

/-- The breakpoint that is left is the one that the machine stopped at.  Bisection puts the other one back
behind it. -/
theorem idler_breakpoints : ∃ xs d,
    Request.answers 3 idlerRequests (ofMachine idler) = some (xs, d) ∧
    d.breakpoints = [2] ∧ Marked idlerRequests 2 ∧ ¬Marked idlerRequests 7 ∧
    xs[2]? = some (.reply (.answer false)) ∧
    xs[3]? = some (.reply (.stopped (.ok (.breakpoint 2)))) ∧
    (∃ x, xs[4]? = some x ∧ Tells (idlerRequests.take 4) (.operation (.command "rb +7")) x) ∧
    d.breakpoints.addAt Breakpoints.bisect 7 = (true, [2, 7]) := by
  obtain ⟨xs, d, h, hbs, hagain, hstopped⟩ : ∃ xs d,
      Request.answers 3 idlerRequests (ofMachine idler) = some (xs, d) ∧ d.breakpoints = [2] ∧
      xs[2]? = some (.reply (.answer false)) ∧
      xs[3]? = some (.reply (.stopped (.ok (.breakpoint 2)))) := ⟨_, _, rfl, rfl, rfl, rfl⟩
  obtain ⟨_, hmem, htells, _, hsearch⟩ := breakpoints_are_sorted_set idler 3 idlerRequests xs d h
  refine ⟨xs, d, h, hbs, ?_, ?_, hagain, hstopped, ?_, ?_⟩
  · rw [← hmem, hbs]
    decide
  · rw [← hmem, hbs]
    decide
  · exact htells (idlerRequests.take 4) (.operation (.command "rb +7")) [.operation (.removeBreakpoint 7)] rfl
  · rw [(hsearch _ Breakpoints.isSearch_bisect 7).1, addBreakpoint, hbs]
    rfl

end Debugger
end WordMachine
