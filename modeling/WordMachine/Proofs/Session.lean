import WordMachine.Proofs.Suspension

/-! # Sessions

A session hands input to a machine in pieces: each call queues a piece and runs the machine
until it waits, halts or fails.  It makes no difference to the program where the input is cut
(`Machine.session_agrees`).  The one trace that a cut leaves is in the queue of a machine that
has halted, which refuses what comes after the halt but keeps what was there before it.

* `Machine.Returns` : a call comes to an end, whatever fuel that takes.
* `Machine.Session` : a sequence of calls, each on the machine that the one before left behind.
* `Machine.Agrees` : how a session compares with one call that brings all its input. -/

namespace WordMachine

namespace Machine

/-! ### Calls -/

/-- A call that queues words and runs comes to an end with a result, leaving a machine behind. -/
def Returns (m : Machine) (ws : List Word) (r : Except Error RunOutput) (m' : Machine) : Prop :=
  ∃ fuel, m.runWords fuel ws = some (r, m')

theorem Returns.unique {m m₁ m₂ : Machine} {ws : List Word} {r₁ r₂ : Except Error RunOutput}
    (h₁ : m.Returns ws r₁ m₁) (h₂ : m.Returns ws r₂ m₂) : r₁ = r₂ ∧ m₁ = m₂ := by
  obtain ⟨n, hn⟩ := h₁
  obtain ⟨k, hk⟩ := h₂
  have e₁ := runWords_mono hn (Nat.le_max_left n k)
  have e₂ := runWords_mono hk (Nat.le_max_right n k)
  exact Prod.mk.inj (Option.some.inj (e₁.symm.trans e₂))

theorem returns_of_halted {m : Machine} (hm : m.mode = .halted) (ws : List Word) :
    m.Returns ws (.ok ⟨[], .halted⟩) m := by
  refine ⟨0, ?_⟩
  rw [runWords_of_queue (queue_of_halted hm ws), run_of_halted hm]

theorem Stuck.returns {m : Machine} {f : Fault} (h : m.Stuck f) (hl : m.limit = none)
    {ws : List Word} (hw : ∀ w ∈ ws, w.toNat ≤ 32767) :
    m.Returns ws (.error (.fault f)) (m.feed ws) := by
  have hpos : m.limit ≠ some 0 := by
    rw [hl]
    nofun
  exact ⟨1, h.runWords hpos hw Nat.one_pos⟩

/-- A call without a limit returns if execution stops, with what a run makes of the stop. -/
theorem returns_iff {m m' : Machine} {ws : List Word} {r : Except Error RunOutput}
    (hm : m.mode ≠ .halted) (hl : m.limit = none) (hw : ∀ w ∈ ws, w.toNat ≤ 32767) :
    m.Returns ws r m' ↔ ∃ p m₁, (m.feed ws).Stops p m₁ ∧ finish none p m₁ = some (r, m') := by
  have hcall : ∀ fuel p m₁, (m.feed ws).advance fuel = (p, m₁) →
      m.runWords fuel ws = finish none p m₁ := by
    intro fuel p m₁ ha
    rw [runWords_of_queue (queue_of_narrow hm hw)]
    exact run_of_unlimited (m := m.feed ws) hm hl ha
  constructor
  · rintro ⟨fuel, h⟩
    rcases ha : (m.feed ws).advance fuel with ⟨p, m₁⟩
    rw [hcall fuel p m₁ ha] at h
    refine ⟨p, m₁, ⟨?_, fuel, ha⟩, h⟩
    rintro rfl
    cases h
  · rintro ⟨p, m₁, ⟨_, fuel, ha⟩, h⟩
    exact ⟨fuel, (hcall fuel p m₁ ha).trans h⟩

theorem Returns.limit {m m' : Machine} {ws : List Word} {r : Except Error RunOutput}
    (h : m.Returns ws r m') (hl : m.limit = none) (hw : ∀ w ∈ ws, w.toNat ≤ 32767) :
    m'.limit = none := by
  by_cases hm : m.mode = .halted
  · obtain ⟨_, rfl⟩ := h.unique (returns_of_halted hm ws)
    exact hl
  · obtain ⟨p, m₁, hstop, hfin⟩ := (returns_iff hm hl hw).mp h
    have hlim : m₁.limit = none := hstop.limit.trans hl
    cases p with
    | spent => cases hfin
    | awaitingInput | halted | faulted f =>
        cases hfin
        exact hlim

/-- A call that succeeds tells whether the machine waits or has halted. -/
theorem Returns.mode {m m' : Machine} {ws : List Word} {out : RunOutput}
    (h : m.Returns ws (.ok out) m') (hl : m.limit = none) (hw : ∀ w ∈ ws, w.toNat ≤ 32767) :
    out.mode = m'.mode ∧ (m'.mode = .awaitingInput ∨ m'.mode = .halted) := by
  by_cases hm : m.mode = .halted
  · obtain ⟨hout, rfl⟩ := h.unique (returns_of_halted hm ws)
    cases hout
    exact ⟨hm.symm, Or.inr hm⟩
  · obtain ⟨p, m₁, hstop, hfin⟩ := (returns_iff hm hl hw).mp h
    cases p with
    | spent | faulted f => cases hfin
    | awaitingInput =>
        cases hfin
        exact ⟨rfl, Or.inl hstop.mode_of_awaiting⟩
    | halted =>
        cases hfin
        exact ⟨rfl, Or.inr hstop.mode_of_halted⟩

/-- A call fails only in front of a failing instruction. -/
theorem Returns.stuck {m m' : Machine} {ws : List Word} {e : Error}
    (h : m.Returns ws (.error e) m') (hl : m.limit = none) (hw : ∀ w ∈ ws, w.toNat ≤ 32767) :
    ∃ f, e = .fault f ∧ m'.Stuck f := by
  by_cases hm : m.mode = .halted
  · obtain ⟨he, _⟩ := h.unique (returns_of_halted hm ws)
    cases he
  · obtain ⟨p, m₁, hstop, hfin⟩ := (returns_iff hm hl hw).mp h
    cases p with
    | spent | awaitingInput | halted => cases hfin
    | faulted f =>
        cases hfin
        exact ⟨f, rfl, hstop.stuck⟩

/-- When a call returns to a machine that waits and whose output has been collected. -/
theorem Stops.returns_iff {m m₁ m' : Machine} {ws : List Word} {r : Except Error RunOutput}
    (h : m.Stops .awaitingInput m₁) (hl : m.limit = none) (hw : ∀ w ∈ ws, w.toNat ≤ 32767) :
    Returns { m₁ with output := #[] } ws r m' ↔
      ∃ p m₂, (({ m₁ with output := #[] } : Machine).feed ws).Stops p m₂ ∧
        Machine.finish none p m₂ = some (r, m') :=
  Machine.returns_iff (m := { m₁ with output := #[] }) h.mode_ne_halted (h.limit.trans hl) hw

/-- Every stop makes a run return. -/
theorem Stops.finish {m m' : Machine} {p : Pause} (h : m.Stops p m') :
    ∃ r m'', Machine.finish none p m' = some (r, m'') := by
  cases p with
  | spent => exact absurd rfl h.1
  | awaitingInput | halted | faulted f => exact ⟨_, _, rfl⟩

/-! ### Sequences of calls -/

/-- `Session m wss rs m'`: calls with the pieces `wss`, one after the other, return with the
results `rs` and lead from `m` to `m'`. -/
inductive Session : Machine → List (List Word) → List (Except Error RunOutput) → Machine → Prop
  | nil (m : Machine) : Session m [] [] m
  | cons {m m₁ m₂ : Machine} {ws : List Word} {wss : List (List Word)}
      {r : Except Error RunOutput} {rs : List (Except Error RunOutput)} :
      m.Returns ws r m₁ → Session m₁ wss rs m₂ → Session m (ws :: wss) (r :: rs) m₂

theorem Session.unique {m m₁ m₂ : Machine} {wss : List (List Word)}
    {rs₁ rs₂ : List (Except Error RunOutput)} (h₁ : Session m wss rs₁ m₁)
    (h₂ : Session m wss rs₂ m₂) : rs₁ = rs₂ ∧ m₁ = m₂ := by
  induction h₁ generalizing rs₂ with
  | nil m =>
      cases h₂
      exact ⟨rfl, rfl⟩
  | cons hcall _ ih =>
      cases h₂ with
      | cons hcall' hrest' =>
          obtain ⟨rfl, rfl⟩ := hcall.unique hcall'
          obtain ⟨rfl, rfl⟩ := ih hrest'
          exact ⟨rfl, rfl⟩

/-- A halted machine answers every call with nothing. -/
theorem session_of_halted {m : Machine} (hm : m.mode = .halted) (wss : List (List Word)) :
    Session m wss ((List.replicate wss.length ⟨[], .halted⟩).map .ok) m := by
  induction wss with
  | nil => exact Session.nil m
  | cons ws wss ih => exact Session.cons (returns_of_halted hm ws) ih

/-- In front of a failing instruction every call fails, and only queues its words. -/
theorem Stuck.session {m : Machine} {f : Fault} (h : m.Stuck f) (hl : m.limit = none)
    {wss : List (List Word)} (hw : ∀ ws ∈ wss, ∀ w ∈ ws, w.toNat ≤ 32767) :
    Session m wss (List.replicate wss.length (.error (.fault f))) (m.feed wss.flatten) := by
  induction wss generalizing m with
  | nil =>
      rw [List.flatten_nil, feed_nil]
      exact Session.nil m
  | cons ws wss ih =>
      have hcall := h.returns hl (hw ws List.mem_cons_self)
      have hrest := ih (h.feed ws) hl (fun us hus => hw us (List.mem_cons_of_mem ws hus))
      rw [feed_feed] at hrest
      exact Session.cons hcall hrest

/-! ### Agreement -/

/-- Calls that succeed like one call with a given output: together they hand out this output,
and they leave the same machine behind but for its queue.  The queue is the same as well if the
machine has not halted, and otherwise lacks what came after the halt. -/
structure SucceedsLike (out : RunOutput) (m' : Machine) (rs : List (Except Error RunOutput))
    (m'' : Machine) : Prop where
  results : ∃ outs : List RunOutput, rs = outs.map .ok ∧ outs.flatMap (·.words) = out.words
  machine : m'' = { m' with input := m''.input }
  queue_prefix : m''.input <+: m'.input
  queue : m'.mode ≠ .halted → m''.input = m'.input

/-- Calls that fail like one call with a given fault: from the first that fails on, all fail
with this fault.  Together with the output that is left uncollected they hand out what the one
call left uncollected, and they leave the same machine behind but for this output. -/
structure FailsLike (f : Fault) (m' : Machine) (rs : List (Except Error RunOutput))
    (m'' : Machine) : Prop where
  results : ∃ (outs : List RunOutput) (k : Nat),
    rs = outs.map .ok ++ List.replicate (k + 1) (.error (.fault f)) ∧
      outs.flatMap (·.words) ++ m''.output.toList = m'.output.toList
  machine : m'' = { m' with output := m''.output }

/-- Calls with the results `rs` that lead to `m''` compare as they should with one call with
the result `r` that leads to `m'`.  One call never fails but for a fault of the program. -/
def Agrees (r : Except Error RunOutput) (m' : Machine) (rs : List (Except Error RunOutput))
    (m'' : Machine) : Prop :=
  match r with
  | .ok out => SucceedsLike out m' rs m''
  | .error (.fault f) => FailsLike f m' rs m''
  | .error _ => False

/-- Calls to a halted machine add nothing to the output of the call in which it halted. -/
theorem succeedsLike_of_halted {m : Machine} (hm : m.mode = .halted) (out : RunOutput)
    (more : List Word) (n : Nat) :
    SucceedsLike out (m.feed more) (.ok out :: (List.replicate n ⟨[], .halted⟩).map .ok) m where
  results := by
    refine ⟨out :: List.replicate n ⟨[], .halted⟩, rfl, ?_⟩
    simp
  machine := rfl
  queue_prefix := List.prefix_append _ _
  queue := fun hne => absurd hm hne

/-- One call agrees with itself. -/
theorem Returns.agrees {m m' : Machine} {ws : List Word} {r : Except Error RunOutput}
    (h : m.Returns ws r m') (hl : m.limit = none) (hw : ∀ w ∈ ws, w.toNat ≤ 32767) :
    Agrees r m' [r] m' := by
  by_cases hm : m.mode = .halted
  · obtain ⟨rfl, rfl⟩ := h.unique (returns_of_halted hm ws)
    have hsame := succeedsLike_of_halted hm ⟨[], .halted⟩ [] 0
    rw [feed_nil] at hsame
    exact hsame
  · obtain ⟨p, m₁, _, hfin⟩ := (returns_iff hm hl hw).mp h
    cases p with
    | spent => cases hfin
    | faulted f =>
        cases hfin
        exact ⟨⟨[], 0, rfl, rfl⟩, rfl⟩
    | awaitingInput | halted =>
        cases hfin
        refine ⟨⟨[_], rfl, ?_⟩, rfl, List.prefix_rfl, fun _ => rfl⟩
        rw [List.flatMap_singleton]

/-- A call that waits hands out output that one call would have kept to its end. -/
theorem agrees_cons_of_finish {m m' : Machine} {p : Pause} {out : List Word}
    {r : Except Error RunOutput} (h : finish none p (m.owing out) = some (r, m')) :
    ∃ r₀ m₀, finish none p m = some (r₀, m₀) ∧ ∀ μ rs m'', Agrees r₀ m₀ rs m'' →
      Agrees r m' (.ok ⟨out, μ⟩ :: rs) m'' := by
  cases p with
  | spent => cases h
  | faulted f =>
      cases h
      refine ⟨_, _, rfl, ?_⟩
      rintro μ rs m'' ⟨⟨outs, k, rfl, hout⟩, hmachine⟩
      refine ⟨⟨⟨out, μ⟩ :: outs, k, rfl, ?_⟩, hmachine⟩
      rw [output_owing, ← hout, List.flatMap_cons, List.append_assoc]
  | awaitingInput | halted =>
      cases h
      refine ⟨_, _, rfl, ?_⟩
      rintro μ rs m'' ⟨⟨outs, rfl, hout⟩, hmachine, hprefix, hqueue⟩
      refine ⟨⟨⟨out, μ⟩ :: outs, rfl, ?_⟩, hmachine, hprefix, hqueue⟩
      rw [List.flatMap_cons, hout, output_owing]

/-! ### One cut -/

/-- A call that returns can be cut in two.  The first part returns.  If it failed, so did the
whole, and if the machine has halted then this was all; otherwise the second part returns, and
whatever agrees with it agrees with the whole once the output of the first part is in front. -/
theorem Returns.cut {m m' : Machine} {c d : List Word} {r : Except Error RunOutput}
    (h : m.Returns (c ++ d) r m') (hl : m.limit = none) (hc : ∀ w ∈ c, w.toNat ≤ 32767)
    (hd : ∀ w ∈ d, w.toNat ≤ 32767) :
    (∃ f m₁, m.Returns c (.error (.fault f)) m₁ ∧ m₁.Stuck f ∧ m₁.limit = none ∧
      r = .error (.fault f) ∧ m' = m₁.feed d) ∨
    (∃ out m₁ more, m.Returns c (.ok out) m₁ ∧ m₁.mode = .halted ∧
      r = .ok out ∧ m' = m₁.feed more) ∨
    (∃ out m₁ r₀ m₀, m.Returns c (.ok out) m₁ ∧ m₁.mode = .awaitingInput ∧ m₁.limit = none ∧
      m₁.Returns d r₀ m₀ ∧
      ∀ rs m'', Agrees r₀ m₀ rs m'' → Agrees r m' (.ok out :: rs) m'') := by
  by_cases hm : m.mode = .halted
  · obtain ⟨rfl, rfl⟩ := h.unique (returns_of_halted hm _)
    exact Or.inr (Or.inl ⟨_, _, [], returns_of_halted hm c, hm, rfl, (feed_nil _).symm⟩)
  · obtain ⟨q, m₂, hstop, hfin⟩ :=
      (returns_iff hm hl (List.forall_mem_append.mpr ⟨hc, hd⟩)).mp h
    rw [← feed_feed] at hstop
    obtain ⟨p, m₁, hfirst⟩ := hstop.of_feed
    have hlim : m₁.limit = none := hfirst.limit.trans hl
    cases p with
    | spent => exact absurd rfl hfirst.1
    | faulted f =>
        obtain ⟨rfl, rfl⟩ := hstop.unique (hfirst.feed (by nofun) d)
        cases hfin
        have hcall := (returns_iff hm hl hc).mpr ⟨_, _, hfirst, rfl⟩
        exact Or.inl ⟨f, m₁, hcall, hfirst.stuck, hlim, rfl, rfl⟩
    | halted =>
        obtain ⟨rfl, rfl⟩ := hstop.unique (hfirst.feed (by nofun) d)
        cases hfin
        have hcall := (returns_iff hm hl hc).mpr ⟨_, _, hfirst, rfl⟩
        exact Or.inr (Or.inl ⟨_, _, d, hcall, hfirst.mode_of_halted, rfl, rfl⟩)
    | awaitingInput =>
        have hcall := (returns_iff hm hl hc).mpr ⟨_, _, hfirst, rfl⟩
        -- The second part starts from the machine without the output handed out so far.
        obtain ⟨m₃, hsecond, rfl⟩ := (hfirst.resume_iff d).mp hstop
        obtain ⟨r₀, m₀, hfin₀, hagrees⟩ := agrees_cons_of_finish hfin
        have hcall₀ := (hfirst.returns_iff hl hd).mpr ⟨_, _, hsecond, hfin₀⟩
        exact Or.inr (Or.inr
          ⟨_, _, r₀, m₀, hcall, hfirst.mode_of_awaiting, hlim, hcall₀, hagrees _⟩)

/-- If two calls return, so does one call that brings the input of both. -/
theorem Returns.join {m m₁ m₂ : Machine} {c d : List Word} {r₁ r₂ : Except Error RunOutput}
    (h₁ : m.Returns c r₁ m₁) (h₂ : m₁.Returns d r₂ m₂) (hl : m.limit = none)
    (hc : ∀ w ∈ c, w.toNat ≤ 32767) (hd : ∀ w ∈ d, w.toNat ≤ 32767) :
    ∃ r m', m.Returns (c ++ d) r m' := by
  by_cases hm : m.mode = .halted
  · exact ⟨_, _, returns_of_halted hm _⟩
  · obtain ⟨p, m₃, hfirst, hfin⟩ := (returns_iff hm hl hc).mp h₁
    have hstop : ∃ q m', ((m.feed c).feed d).Stops q m' := by
      by_cases hp : p = .awaitingInput
      · subst hp
        cases hfin
        obtain ⟨q, m₄, hsecond, _⟩ := (hfirst.returns_iff hl hd).mp h₂
        exact ⟨q, _, (hfirst.resume_iff d).mpr ⟨m₄, hsecond, rfl⟩⟩
      · exact ⟨p, _, hfirst.feed hp d⟩
    obtain ⟨q, m', hq⟩ := hstop
    obtain ⟨r, m'', hr⟩ := hq.finish
    rw [feed_feed] at hq
    exact ⟨r, m'', (returns_iff hm hl (List.forall_mem_append.mpr ⟨hc, hd⟩)).mpr ⟨q, m', hq, hr⟩⟩

/-! ### Any number of cuts -/

/-- If one call returns, so does every call of a session with its input, and they agree. -/
theorem Returns.session {m m' : Machine} {c : List Word} {cs : List (List Word)}
    {r : Except Error RunOutput} (h : m.Returns (c :: cs).flatten r m') (hl : m.limit = none)
    (hw : ∀ ws ∈ c :: cs, ∀ w ∈ ws, w.toNat ≤ 32767) :
    ∃ rs m'', Session m (c :: cs) rs m'' ∧ Agrees r m' rs m'' := by
  induction cs generalizing m m' c r with
  | nil =>
      rw [List.flatten_singleton] at h
      exact ⟨[r], m', Session.cons h (Session.nil m'), h.agrees hl (hw c List.mem_cons_self)⟩
  | cons d ds ih =>
      have hc := hw c List.mem_cons_self
      have hds : ∀ ws ∈ d :: ds, ∀ w ∈ ws, w.toNat ≤ 32767 :=
        fun ws hws => hw ws (List.mem_cons_of_mem c hws)
      rw [List.flatten_cons] at h
      -- The cut behind the first piece; only a machine that waits needs the hypothesis.
      rcases h.cut hl hc (List.forall_mem_flatten.mpr hds) with
        ⟨f, m₁, hcall, hstuck, hlim, rfl, rfl⟩ | ⟨out, m₁, more, hcall, hhalt, rfl, rfl⟩ |
        ⟨out, m₁, r₀, m₀, hcall, _, hlim, hcall₀, hagrees⟩
      · exact ⟨_, _, Session.cons hcall (hstuck.session hlim hds),
          ⟨[], (d :: ds).length, rfl, rfl⟩, rfl⟩
      · exact ⟨_, _, Session.cons hcall (session_of_halted hhalt (d :: ds)),
          succeedsLike_of_halted hhalt out more _⟩
      · obtain ⟨rs, m'', hrest, hrest'⟩ := ih hcall₀ hlim hds
        exact ⟨_, m'', Session.cons hcall hrest, hagrees rs m'' hrest'⟩

/-- If every call of a session returns, so does one call with its input. -/
theorem Session.returns {m m'' : Machine} {c : List Word} {cs : List (List Word)}
    {rs : List (Except Error RunOutput)} (h : Session m (c :: cs) rs m'') (hl : m.limit = none)
    (hw : ∀ ws ∈ c :: cs, ∀ w ∈ ws, w.toNat ≤ 32767) :
    ∃ r m', m.Returns (c :: cs).flatten r m' := by
  induction cs generalizing m c rs with
  | nil =>
      rw [List.flatten_singleton]
      cases h with
      | cons hcall _ => exact ⟨_, _, hcall⟩
  | cons d ds ih =>
      have hds : ∀ ws ∈ d :: ds, ∀ w ∈ ws, w.toNat ≤ 32767 :=
        fun ws hws => hw ws (List.mem_cons_of_mem c hws)
      cases h with
      | @cons _ m₁ _ _ _ _ _ hcall hrest =>
          have hc := hw c List.mem_cons_self
          obtain ⟨r₂, m₂, hcall₂⟩ := ih hrest (hcall.limit hl hc) hds
          exact hcall.join hcall₂ hl hc (List.forall_mem_flatten.mpr hds)

/-- **It makes no difference where input is cut.**  A session of at least one call on a machine
without an instruction limit comes to an end if and only if one call with the same input does,
and then the two agree. -/
theorem session_agrees {m : Machine} (hl : m.limit = none) {chunks : List (List Word)}
    (hne : chunks ≠ []) (hw : ∀ ws ∈ chunks, ∀ w ∈ ws, w.toNat ≤ 32767) :
    ((∃ r m', m.Returns chunks.flatten r m') ↔ ∃ rs m'', Session m chunks rs m'') ∧
    ∀ r m' rs m'', m.Returns chunks.flatten r m' → Session m chunks rs m'' →
      Agrees r m' rs m'' := by
  obtain ⟨c, cs, rfl⟩ := List.exists_cons_of_ne_nil hne
  refine ⟨⟨?_, ?_⟩, ?_⟩
  · rintro ⟨r, m', h⟩
    obtain ⟨rs, m'', hsession, _⟩ := h.session hl hw
    exact ⟨rs, m'', hsession⟩
  · rintro ⟨rs, m'', h⟩
    exact h.returns hl hw
  · intro r m' rs m'' hcall hsession
    obtain ⟨rs', m₁, hsession', hagrees⟩ := hcall.session hl hw
    obtain ⟨rfl, rfl⟩ := hsession.unique hsession'
    exact hagrees

/-- A program that echoes one word, and then halts. -/
def echo : Machine := Machine.holding [20, 32768, 19, 32768, 0] (by decide)

/-- A program that echoes one word, and then pops from an empty stack. -/
def brokenEcho : Machine := Machine.holding [20, 32768, 19, 32768, 3, 32768] (by decide)

/-- Both programs wait in the first call and come to their end in the second.  The third call
brings a word too many: it is lost after the halt, and stays in the queue after the failure. -/
theorem echo_in_three_calls :
    let chunks : List (List Word) := [[], [65], [66]]
    let underflow := Error.fault (.stackUnderflow 4)
    (∃ m' m'', echo.Returns chunks.flatten (.ok ⟨[65], .halted⟩) m' ∧
      Session echo chunks [.ok ⟨[], .awaitingInput⟩, .ok ⟨[65], .halted⟩, .ok ⟨[], .halted⟩] m'' ∧
      m'.input = [66] ∧ m''.input = [] ∧ m'' = { m' with input := m''.input }) ∧
    (∃ m' m'', brokenEcho.Returns chunks.flatten (.error underflow) m' ∧
      Session brokenEcho chunks [.ok ⟨[], .awaitingInput⟩, .error underflow, .error underflow] m'' ∧
      m'.output.toList = [65] ∧ m'' = { m' with output := m''.output }) := by
  intro chunks underflow
  have hw : ∀ ws ∈ chunks, ∀ w ∈ ws, w.toNat ≤ 32767 := by simp [chunks]
  constructor
  · have hcall : ∃ m', echo.runWords 3 [65, 66] = some (.ok ⟨[65], .halted⟩, m') ∧
        m'.input = [66] := ⟨_, rfl, rfl⟩
    have hcalls : ∃ m'', Session echo chunks
        [.ok ⟨[], .awaitingInput⟩, .ok ⟨[65], .halted⟩, .ok ⟨[], .halted⟩] m'' ∧ m''.input = [] :=
      ⟨_, .cons ⟨1, rfl⟩ (.cons ⟨3, rfl⟩ (.cons ⟨0, rfl⟩ (.nil _))), rfl⟩
    obtain ⟨m', hcall, hin⟩ := hcall
    obtain ⟨m'', hcalls, hin'⟩ := hcalls
    have hagrees := (session_agrees rfl (by decide) hw).2 _ m' _ m'' ⟨3, hcall⟩ hcalls
    exact ⟨m', m'', ⟨3, hcall⟩, hcalls, hin, hin', hagrees.machine⟩
  · have hcall : ∃ m', brokenEcho.runWords 3 [65, 66] = some (.error underflow, m') ∧
        m'.output.toList = [65] := ⟨_, rfl, rfl⟩
    have hcalls : ∃ m'', Session brokenEcho chunks
        [.ok ⟨[], .awaitingInput⟩, .error underflow, .error underflow] m'' :=
      ⟨_, .cons ⟨1, rfl⟩ (.cons ⟨3, rfl⟩ (.cons ⟨1, rfl⟩ (.nil _)))⟩
    obtain ⟨m', hcall, hout⟩ := hcall
    obtain ⟨m'', hcalls⟩ := hcalls
    have hagrees := (session_agrees rfl (by decide) hw).2 _ m' _ m'' ⟨3, hcall⟩ hcalls
    exact ⟨m', m'', ⟨3, hcall⟩, hcalls, hout, hagrees.machine⟩

end Machine
end WordMachine
