import LoxCore.Proofs.Grammar.Cursor

/-!
What a program with errors is read to. Each call for a statement moves the cursor, so reading comes to
the end mark, and each call gives a statement or one error that stopped it.
-/
namespace LoxCore.Grammar

namespace Blame

variable {tokens : List Token} {earlier later : Blame}

/-- Two errors are blamed on different tokens. -/
theorem Recorded.position_ne (h : earlier.Recorded tokens later) :
    earlier.position ≠ later.position := by
  rcases h with ⟨hlt, -⟩ | hencloses
  · exact Nat.ne_of_lt hlt
  · exact Nat.ne_of_gt hencloses.2.2.1

theorem Recorded.position_lt (h : earlier.Recorded tokens later)
    (hstops : later.cause.stopsStatement = true) : earlier.position < later.position := by
  rcases h with ⟨hlt, -⟩ | hencloses
  · exact hlt
  · exact absurd hencloses.1 (Diagnostic.Cause.ne_of_stopsStatement hstops)

end Blame

namespace Call

/-- The tokens of a call. -/
def segment (tokens : List Token) (c : Call) : List Token :=
  (tokens.take c.stop).drop c.start

/-- The call ends behind a semicolon, before a word that starts a statement, or at an end mark. -/
def IsDelimited (tokens : List Token) (c : Call) : Prop :=
  EndsStatement (c.segment tokens) ∨
    ∃ t ∈ tokens[c.stop]?, startsStatement t.kind = true ∨ t.kind = .eof

/-- The errors of a call that stop a statement. -/
def raised (c : Call) : List Blame :=
  c.recorded.filter fun b => b.cause.stopsStatement

/-- The call gives a statement, or nothing but for one error that stopped it. All its other errors are
those of assignments to what is no variable. -/
def IsSettled (c : Call) : Prop :=
  ((c.statement.isSome = true ∧ c.raised = []) ∨ (c.statement = none ∧ ∃ b, c.raised = [b])) ∧
    ∀ b ∈ c.recorded, b ∉ c.raised → b.cause = .invalidAssignmentTarget

variable {noted : List Blame}

theorem raised_eq_nil (hnoted : ∀ b ∈ noted, b.cause = .invalidAssignmentTarget) :
    (noted.filter fun b => b.cause.stopsStatement) = [] := by
  rw [List.filter_eq_nil_iff]
  intro b hb
  simp [hnoted b hb, Diagnostic.Cause.stopsStatement]

theorem isSettled_some (start stop : Nat) (s : Node)
    (hnoted : ∀ b ∈ noted, b.cause = .invalidAssignmentTarget) :
    (⟨start, stop, some s, noted⟩ : Call).IsSettled :=
  ⟨.inl ⟨rfl, raised_eq_nil hnoted⟩, fun b hb _ => hnoted b hb⟩

theorem isSettled_none (start stop : Nat)
    (hnoted : ∀ b ∈ noted, b.cause = .invalidAssignmentTarget) {b : Blame}
    (hstops : b.cause.stopsStatement = true) :
    (⟨start, stop, none, noted ++ [b]⟩ : Call).IsSettled := by
  have hraised : (⟨start, stop, none, noted ++ [b]⟩ : Call).raised = [b] := by
    simp [raised, raised_eq_nil hnoted, hstops]
  refine ⟨.inr ⟨rfl, b, hraised⟩, fun other hother hne => ?_⟩
  rw [hraised] at hne
  rcases List.mem_append.mp hother with hother | hother
  · exact hnoted other hother
  · exact absurd hother hne

end Call

/-- The calls follow one another from a position to another, and each moves the cursor. -/
def Consecutive : Nat → Nat → List Call → Prop
  | start, stop, [] => start = stop
  | start, stop, c :: calls => c.start = start ∧ start < c.stop ∧ Consecutive c.stop stop calls

theorem Consecutive.le {start stop : Nat} {calls : List Call} (h : Consecutive start stop calls) :
    start ≤ stop := by
  induction calls generalizing start with
  | nil => exact Nat.le_of_eq h
  | cons c calls ih => exact Nat.le_trans (Nat.le_of_lt h.2.1) (ih h.2.2)

/-- The segments of consecutive calls are the tokens between the two positions. -/
theorem Consecutive.flatMap_segment {start stop : Nat} {calls : List Call}
    (h : Consecutive start stop calls) (tokens : List Token) :
    calls.flatMap (Call.segment tokens) = (tokens.take stop).drop start := by
  induction calls generalizing start with
  | nil =>
    obtain rfl : start = stop := h
    simp
  | cons c calls ih =>
    obtain ⟨rfl, hlt, hcalls⟩ := h
    have hle := hcalls.le
    have hsum : stop - c.start = (c.stop - c.start) + (stop - c.stop) := by omega
    have hstop : c.start + (c.stop - c.start) = c.stop := by omega
    rw [List.flatMap_cons, ih hcalls, Call.segment, List.drop_take, List.drop_take, List.drop_take,
      hsum, List.take_add, List.drop_drop, hstop]

/-! The calls of a walk. -/

/-- The call of a walk that reads from some tokens to others. -/
def Call.reading (body left rest : List Token) (s : Option Node) (faults : List Fault) : Call :=
  ⟨body.length - left.length, body.length - rest.length, s, faults.map (Fault.blame body)⟩

namespace Walk

variable {tokens body left rest : List Token} {mark t : Token} {noted : List Fault}

theorem segment_reading (hbody : IsBody tokens body mark) {used : List Token}
    (hleft : left = used ++ rest) (hsuffix : left <:+ body) (s : Option Node) (faults : List Fault) :
    (Call.reading body left rest s faults).segment tokens = used := by
  obtain ⟨after, rfl⟩ := hbody.exists_eq
  obtain ⟨before, rfl⟩ := hsuffix
  subst hleft
  have hstart : (before ++ (used ++ rest)).length - (used ++ rest).length = before.length := by simp
  have hstop : (before ++ (used ++ rest)).length - rest.length = (before ++ used).length := by
    simp
    omega
  have htokens : before ++ (used ++ rest) ++ mark :: after =
      (before ++ used) ++ (rest ++ mark :: after) := by simp
  rw [Call.segment, Call.reading, hstart, hstop, htokens, List.take_left, List.drop_left]

theorem start_lt_stop_reading (hlt : rest.length < left.length) (hsuffix : left <:+ body)
    (s : Option Node) (faults : List Fault) :
    (Call.reading body left rest s faults).start < (Call.reading body left rest s faults).stop := by
  have := hsuffix.length_le
  simp only [Call.reading]
  omega

/-- A call that reads a statement ends behind its semicolon. -/
theorem reading_done (hbody : IsBody tokens body mark) {value : Reader Node}
    (hvalue : value.Orderly .assignment) (hleft : t :: left <:+ body) {s : Node}
    (hread : (Grammar.statement value).read (t :: left) = .done s noted rest) :
    let c := Call.reading body (t :: left) rest (some s) noted
    c.start < c.stop ∧ c.IsDelimited tokens ∧ c.IsSettled := by
  have hwithin := (Grammar.statement value).within (t :: left)
  have hstatement := orderly_statement hvalue (t :: left)
  rw [hread] at hwithin hstatement
  obtain ⟨-, ⟨used, hused, hends⟩, hall⟩ := hstatement
  refine ⟨start_lt_stop_reading hwithin hleft _ _, .inl ?_, ?_⟩
  · rwa [segment_reading hbody hused hleft]
  · refine Call.isSettled_some _ _ s fun b hb => ?_
    obtain ⟨f, hf, rfl⟩ := List.mem_map.mp hb
    exact (hall f hf).1.1

/-- A call in which a statement fails ends where recovery does. -/
theorem reading_failed (hbody : IsBody tokens body mark) {value : Reader Node}
    (hvalue : value.Orderly .assignment) (hleft : t :: left <:+ body) {fault : Fault}
    (hread : (Grammar.statement value).read (t :: left) = .failed noted fault) :
    let c := Call.reading body (t :: left) (recover fault.left) none (noted ++ [fault])
    c.start < c.stop ∧ c.IsDelimited tokens ∧ c.IsSettled := by
  have hwithin := (Grammar.statement value).within (t :: left)
  have hstatement := orderly_statement hvalue (t :: left)
  rw [hread] at hwithin hstatement
  obtain ⟨-, hcause, ⟨used, hused⟩, hall⟩ := hstatement
  obtain ⟨skipped, hskipped, -, hresumes⟩ := exists_recover fault.left
  have hlt := length_recover_lt hwithin (List.cons_ne_nil t left)
  have hrest : t :: left = used ++ skipped ++ recover fault.left := by
    rw [List.append_assoc, ← hskipped, hused]
  have hnext : tokens[(Cursor.facing body (recover fault.left) []).position]? =
      some ((recover fault.left).headD mark) :=
    getElem?_facing hbody (.trans ⟨_, hrest.symm⟩ hleft)
  refine ⟨start_lt_stop_reading hlt hleft _ _, ?_, ?_⟩
  · rcases hresumes with hnil | hends | ⟨u, hu, hstarts⟩
    · refine .inr ⟨_, hnext, .inr ?_⟩
      rw [hnil]
      exact hbody.mark_kind
    · left
      rw [segment_reading hbody hrest hleft]
      exact hends.append_left used
    · refine .inr ⟨_, hnext, .inl ?_⟩
      rwa [List.headD_eq_head?_getD, Option.mem_def.mp hu]
  · rw [Call.reading, List.map_append]
    refine Call.isSettled_none _ _ (fun b hb => ?_) hcause
    obtain ⟨f, hf, rfl⟩ := List.mem_map.mp hb
    exact (hall f hf).1.1

/-- A call, and those behind it. -/
theorem outcome_program (hbody : IsBody tokens body mark) {walk : Walk Node}
    (hleft : t :: left <:+ body) {recorded : List Blame} {s : Option Node} {faults : List Fault}
    {calls : List Call} {c : Cursor}
    (hcall : (declaration tokens walk).outcome (.facing body (t :: left) recorded) =
      (.ok s, .facing body rest (recorded ++ faults.map (Fault.blame body)))) {rounds : Nat}
    (hcalls : (program tokens walk rounds).outcome
      (.facing body rest (recorded ++ faults.map (Fault.blame body))) = (.ok calls, c)) :
    (program tokens walk (rounds + 1)).outcome (.facing body (t :: left) recorded) =
      (.ok (.reading body (t :: left) rest s faults :: calls), c) := by
  have hposition (left : List Token) (recorded : List Blame) :
      (Cursor.facing body left recorded).position = body.length - left.length := rfl
  have hrecorded (left : List Token) (recorded : List Blame) :
      (Cursor.facing body left recorded).recorded = recorded := rfl
  rw [program]
  simp [outcome_atEnd hbody hleft, hcall, hcalls, hposition, hrecorded, Call.reading]

theorem exists_calls (hbody : IsBody tokens body mark) {walk : Walk Node} {value : Reader Node}
    (hvalue : Follows body walk value.read) (horderly : value.Orderly .assignment)
    (hleft : left <:+ body) {rounds : Nat} (hrounds : left.length < rounds)
    (recorded : List Blame) : ∃ calls,
      (program tokens walk rounds).outcome (.facing body left recorded) = (.ok calls,
        .facing body [] (recorded ++ (readAll value left).faults.map (Fault.blame body))) ∧
      calls.filterMap Call.statement = (readAll value left).statements ∧
      calls.flatMap Call.recorded = (readAll value left).faults.map (Fault.blame body) ∧
      Consecutive (body.length - left.length) body.length calls ∧
      ∀ c ∈ calls, c.IsDelimited tokens ∧ c.IsSettled := by
  -- Every call leaves fewer tokens, so there is a round for each.
  fun_induction readAll value left generalizing rounds recorded with
  | case1 =>
    obtain ⟨rounds, rfl⟩ := exists_eq_add_one hrounds
    refine ⟨[], ?_, rfl, rfl, rfl, List.forall_mem_nil _⟩
    rw [program]
    simp [outcome_atEnd hbody hleft]
  | case2 t rest s noted left hread more ih =>
    obtain ⟨rounds, rfl⟩ := exists_eq_add_one hrounds
    obtain ⟨hmoves, hdelimited, hsettled⟩ := reading_done hbody horderly hleft hread
    have hwithin := (Grammar.statement value).within (t :: rest)
    have hstatement := orderly_statement horderly (t :: rest)
    rw [hread] at hwithin hstatement
    obtain ⟨-, ⟨used, hused, -⟩, -⟩ := hstatement
    have hfewer : left.length < rounds := Nat.lt_of_lt_of_le hwithin (Nat.le_of_lt_succ hrounds)
    obtain ⟨calls, hrun, hstatements, hrecorded, hconsecutive, hcalls⟩ :=
      ih (List.IsSuffix.trans ⟨used, hused.symm⟩ hleft) hfewer
        (recorded ++ noted.map (Fault.blame body))
    refine ⟨.reading body (t :: rest) left (some s) noted :: calls, ?_, ?_, ?_, ?_, ?_⟩
    · rw [outcome_program hbody hleft (outcome_declaration_done hbody hvalue hleft hread) hrun]
      simp [more]
    · exact congrArg (s :: ·) hstatements
    · rw [List.flatMap_cons, hrecorded, List.map_append]
      rfl
    · exact ⟨rfl, hmoves, hconsecutive⟩
    · exact List.forall_mem_cons.mpr ⟨⟨hdelimited, hsettled⟩, hcalls⟩
  | case3 t rest noted fault hread more ih =>
    obtain ⟨rounds, rfl⟩ := exists_eq_add_one hrounds
    obtain ⟨hmoves, hdelimited, hsettled⟩ := reading_failed hbody horderly hleft hread
    have hwithin := (Grammar.statement value).within (t :: rest)
    have hstatement := orderly_statement horderly (t :: rest)
    rw [hread] at hwithin hstatement
    obtain ⟨-, -, hfault, -⟩ := hstatement
    obtain ⟨skipped, hskipped, -⟩ := exists_recover fault.left
    have hfewer : (recover fault.left).length < rounds :=
      Nat.lt_of_lt_of_le (length_recover_lt hwithin (List.cons_ne_nil t rest))
        (Nat.le_of_lt_succ hrounds)
    obtain ⟨calls, hrun, hstatements, hrecorded, hconsecutive, hcalls⟩ :=
      ih (.trans (.trans ⟨skipped, hskipped.symm⟩ hfault) hleft) hfewer
        (recorded ++ (noted ++ [fault]).map (Fault.blame body))
    refine ⟨.reading body (t :: rest) (recover fault.left) none (noted ++ [fault]) :: calls,
      ?_, ?_, ?_, ?_, ?_⟩
    · rw [outcome_program hbody hleft (outcome_declaration_failed hbody hvalue hleft hread) hrun]
      simp [more]
    · exact hstatements
    · rw [List.flatMap_cons, hrecorded]
      simp [Call.reading, more]
    · exact ⟨rfl, hmoves, hconsecutive⟩
    · exact List.forall_mem_cons.mpr ⟨⟨hdelimited, hsettled⟩, hcalls⟩

end Walk

end LoxCore.Grammar

namespace LoxCore.Program

open Grammar

theorem isBody_takeWhile {tokens : List Token} (h : ∃ t ∈ tokens, t.kind = .eof) :
    ∃ mark, IsBody tokens (tokens.takeWhile fun t => t.kind ≠ .eof) mark := by
  obtain ⟨mark, after, htokens, hmark, -⟩ := exists_mark h
  refine ⟨mark, ⟨after, htokens⟩, hmark, fun t ht => ?_⟩
  simpa using List.all_eq_true.mp List.all_takeWhile t ht

variable (depth : Nat) {tokens : List Token}

/-- Reading a program with a cursor ends, at the first end mark: no look before the first token or
behind the last breaks it off, no step over an end mark, and no loop with more rounds than there are
tokens. It takes call after call, each over some tokens that end with a semicolon, before a word that
starts a statement, or at the end mark. A call gives a statement of the program, or else one error that
stopped it. The errors are those of the program. Those that stop statements are blamed on later and
later tokens, and no two errors are blamed on one token. -/
theorem parse_accounts (h : ∃ t ∈ tokens, t.kind = .eof) :
    ∃ calls,
      Walk.parse tokens depth =
        (.ok calls, ⟨tokens.findIdx fun t => t.kind = .eof, blamesTo depth tokens⟩) ∧
      Consecutive 0 (tokens.findIdx fun t => t.kind = .eof) calls ∧
      calls.flatMap (Call.segment tokens) = tokens.takeWhile (fun t => t.kind ≠ .eof) ∧
      (∀ c ∈ calls, c.IsDelimited tokens ∧ c.IsSettled) ∧
      calls.filterMap Call.statement = (ofTokensTo depth tokens).statements ∧
      calls.flatMap Call.recorded = blamesTo depth tokens ∧
      List.Forall₂ (Blame.Explains tokens) (blamesTo depth tokens)
        (ofTokensTo depth tokens).errors ∧
      ((calls.flatMap Call.raised).map Blame.position).Pairwise (· < ·) ∧
      ((blamesTo depth tokens).map Blame.position).Nodup := by
  obtain ⟨mark, hbody⟩ := isBody_takeWhile h
  have htake : (tokens.takeWhile fun t => t.kind ≠ .eof) =
      tokens.take (tokens.findIdx fun t => t.kind = .eof) := by
    simp [List.takeWhile_eq_take_findIdx_not]
  have hstop : (tokens.takeWhile fun t => t.kind ≠ .eof).length =
      tokens.findIdx fun t => t.kind = .eof := by
    rw [htake, List.length_take, Nat.min_eq_left List.findIdx_le_length]
  obtain ⟨calls, hrun, hstatements, hrecorded, hconsecutive, hcalls⟩ :=
    Walk.exists_calls hbody (Walk.follows_expression hbody depth) (orderly_expression depth)
      List.suffix_rfl (hbody.length_lt List.suffix_rfl) []
  rw [Nat.sub_self, hstop] at hconsecutive
  have hblames := recorded_blames depth h
  refine ⟨calls, ?_, hconsecutive, ?_, hcalls, hstatements, hrecorded, explains_errors depth h,
    ?_, ?_⟩
  · rw [Cursor.facing, Nat.sub_self, Cursor.facing, hstop] at hrun
    exact hrun
  · rw [hconsecutive.flatMap_segment, htake, List.drop_zero]
  · have hraised : calls.flatMap Call.raised =
        (blamesTo depth tokens).filter fun b => b.cause.stopsStatement := by
      rw [blamesTo, ← hrecorded, List.filter_flatMap]
      rfl
    rw [hraised, List.pairwise_map]
    refine (hblames.filter _).imp_of_mem fun _ hlater hboth => ?_
    exact hboth.position_lt (List.mem_filter.mp hlater).2
  · exact List.pairwise_map.mpr (hblames.imp Blame.Recorded.position_ne)

/-- Two assignments to numbers, one in the value of the other, and a closing parenthesis where a
statement should start. -/
theorem parse_accounts_assignments :
    let word kind : Token := ⟨kind, "?", .nil, 1⟩
    let tokens := [word .number, word .equal, word .number, word .equal, word .number,
      word .semicolon, word .rightParen, Token.endMark 1]
    (∃ t ∈ tokens, t.kind = .eof) ∧ ∃ calls,
      Walk.parse tokens nestingLimit = (.ok calls, ⟨7, [⟨.invalidAssignmentTarget, 3⟩,
        ⟨.invalidAssignmentTarget, 1⟩, ⟨.expectExpression, 6⟩]⟩) ∧
      Consecutive 0 7 calls ∧ ∀ c ∈ calls, c.IsDelimited tokens ∧ c.IsSettled := by
  intro word tokens
  have hmark : ∃ t ∈ tokens, t.kind = .eof := by decide
  have hblames : blamesTo nestingLimit tokens = [⟨.invalidAssignmentTarget, 3⟩,
      ⟨.invalidAssignmentTarget, 1⟩, ⟨.expectExpression, 6⟩] := by with_unfolding_all rfl
  obtain ⟨calls, hparse, hconsecutive, -, hcalls, -⟩ := parse_accounts nestingLimit hmark
  rw [hblames] at hparse
  exact ⟨hmark, calls, hparse, hconsecutive, hcalls⟩

end LoxCore.Program
