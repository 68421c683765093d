import LoxCore.Proofs.Grammar.Kept
import LoxCore.Proofs.Node.Sorted
import LoxCore.Proofs.Token.Restart
import LoxCore.Source
import Mathlib.Order.Bounds.Basic

/-!
The first line of a tree. The search with a stack finds the token that comes first when the tree is
walked in depth, field by field, and a statement that was read from text starts on that line.
-/
namespace LoxCore

namespace Node

/-- A search of the parts on a stack that ends after some turns, with the first token that it meets or
with none. The top of the stack is its end. Every turn takes the part at the top away: a token ends the
search, and a node leaves its own parts there, the first of them at the top. -/
inductive Search : List Part → Nat → Option Token → Prop where
  | exhausted : Search [] 0 none
  | found (stack : List Part) (t : Token) : Search (stack ++ [.token t]) 1 (some t)
  | opened {stack : List Part} {n : Node} {turns : Nat} {found : Option Token}
      (rest : Search (stack ++ n.parts.reverse) turns found) :
      Search (stack ++ [.node n]) (turns + 1) found

/-- A search on a stack finds what the search through a list finds, from the top down. -/
theorem Search.eq_firstToken? {stack : List Part} {turns : Nat} {found : Option Token}
    (h : Search stack turns found) : found = firstToken? stack.reverse := by
  induction h with
  | exhausted => rw [List.reverse_nil, firstToken?]
  | found stack t =>
    rw [List.reverse_append, List.reverse_singleton, List.singleton_append, firstToken?]
  | @opened stack n turns found _ ih =>
    rw [List.reverse_append, List.reverse_reverse] at ih
    rw [List.reverse_append, List.reverse_singleton, List.singleton_append, firstToken?, ih]

/-- Every search ends. A turn makes what is on the stack smaller. -/
theorem exists_search (pending : List Part) :
    ∃ turns ≤ Part.sizeAll pending, Search pending.reverse turns (firstToken? pending) := by
  fun_induction firstToken? pending with
  | case1 => exact ⟨0, Nat.le_refl 0, .exhausted⟩
  | case2 t rest =>
    refine ⟨1, Nat.le_add_right 1 _, ?_⟩
    rw [List.reverse_cons]
    exact .found rest.reverse t
  | case3 n rest ih =>
    obtain ⟨turns, hturns, hsearch⟩ := ih
    have hsmaller := sizeAll_parts_lt n
    rw [Part.sizeAll_append] at hturns
    rw [List.reverse_append] at hsearch
    refine ⟨turns + 1, ?_, ?_⟩
    · rw [Part.sizeAll, Part.size]
      omega
    · rw [List.reverse_cons]
      exact .opened hsearch

/-- The tokens that a statement keeps were scanned, in this order. -/
theorem tokens_sublist_body {text : String} {s : Node} (hs : s ∈ (Source.ofText text).statements) :
    s.tokens.Sublist (Scan.ofSource text).body := by
  refine (Grammar.tokens_sublist_of_mem hs).trans ?_
  -- Of the scanned tokens, only the last can be an end mark.
  rw [Scan.tokens, List.takeWhile_append]
  split
  · have hmark : [Token.endMark (Scan.ofSource text).endLine].takeWhile
        (fun t => t.kind ≠ .eof) = [] := rfl
    rw [hmark, List.append_nil]
  · exact List.takeWhile_sublist _

/-- Scanned tokens stand on lines that never go back, from line one on. -/
theorem lines_of_sublist {text : String} {tokens : List Token}
    (h : tokens.Sublist (Scan.ofSource text).body) :
    (tokens.map Token.line).Pairwise (· ≤ ·) ∧ ∀ t ∈ tokens, 1 ≤ t.line := by
  have hbody : ((Scan.ofSource text).body.map Token.line).Pairwise (· ≤ ·) := by
    rw [Scan.body_eq]
    exact Scan.pairwise_line Scan.line_token? [] _
  refine ⟨hbody.sublist (h.map Token.line), fun t ht => ?_⟩
  exact (Scan.line_bounds (List.mem_append_left _ (h.subset ht))).1

/-- If lines never go back, the first is the least. -/
theorem isLeast_lineOfFirst {tokens : List Token} (hne : tokens ≠ [])
    (h : (tokens.map Token.line).Pairwise (· ≤ ·)) :
    IsLeast {line | ∃ t ∈ tokens, t.line = line} (lineOfFirst tokens) := by
  cases tokens with
  | nil => exact absurd rfl hne
  | cons first rest =>
    rw [List.map_cons, List.pairwise_cons] at h
    refine ⟨⟨first, List.mem_cons_self, rfl⟩, ?_⟩
    rintro _ ⟨t, ht, rfl⟩
    rcases List.mem_cons.mp ht with rfl | ht
    · exact Int.le_refl _
    · exact h.1 t.line (List.mem_map_of_mem ht)

/-- A first line of zero says that there is no token, or that the first stands on line zero. -/
theorem lineOfFirst_eq_zero_iff (tokens : List Token) :
    lineOfFirst tokens = 0 ↔ tokens = [] ∨ ∃ t ∈ tokens.head?, t.line = 0 := by
  cases tokens <;> simp [lineOfFirst]

/-- The first line of a tree is that of the first token in the order of its fields, or zero if it has
no token. The search with a stack ends after no more turns than there are tokens and nodes in the tree,
and finds that token. In a statement that was read from a text, malformed as the text may be elsewhere,
no token stands on an earlier line, and the line is zero only if the statement has no token. -/
theorem firstLine_exact (n : Node) :
    n.tokens = n.parts.flatMap Part.tokens ∧
    (∃ turns ≤ n.size, Search [.node n] turns n.tokens.head?) ∧
    (∀ turns found, Search [.node n] turns found → found = n.tokens.head?) ∧
    (∀ t ∈ n.tokens.head?, n.firstLine = t.line) ∧
    (n.firstLine = 0 ↔ n.tokens = [] ∨ ∃ t ∈ n.tokens.head?, t.line = 0) ∧
    ∀ text, n ∈ (Source.ofText text).statements →
      (n.firstLine = 0 ↔ n.tokens = []) ∧
      (n.tokens ≠ [] → IsLeast {line | ∃ t ∈ n.tokens, t.line = line} n.firstLine) := by
  have hfirst : firstToken? [.node n] = n.tokens.head? := by
    rw [firstToken?_eq, List.flatMap_singleton, Part.tokens]
  have hzero := lineOfFirst_eq_zero_iff n.tokens
  rw [firstLine_eq]
  refine ⟨(flatMap_tokens_parts n).symm, ?_, ?_, ?_, hzero, ?_⟩
  · obtain ⟨turns, hturns, hsearch⟩ := exists_search [.node n]
    rw [hfirst] at hsearch
    exact ⟨turns, hturns, hsearch⟩
  · intro turns found hsearch
    rw [hsearch.eq_firstToken?, List.reverse_singleton, hfirst]
  · intro t ht
    rw [lineOfFirst, Option.mem_def.mp ht]
    rfl
  · intro text hstatement
    obtain ⟨hlines, hpositive⟩ := lines_of_sublist (tokens_sublist_body hstatement)
    refine ⟨hzero.trans (or_iff_left ?_), fun hne => isLeast_lineOfFirst hne hlines⟩
    rintro ⟨t, ht, hline⟩
    have := hpositive t (List.mem_of_mem_head? ht)
    omega

/-- A statement behind one that cannot be read. It keeps neither the token of its literal, nor the
parenthesis before that, nor the value assigned to what is no variable. -/
theorem firstLine_exact_dropped :
    let text := "print ;\nprint\n(true\n- a) +\nb = c;"
    let statement : Node := .print (.binary (.grouping (.binary (.literal (.bool true))
      ⟨.minus, "-", .nil, 4⟩ (.ref ⟨.identifier, "a", .nil, 4⟩)))
      ⟨.plus, "+", .nil, 4⟩ (.ref ⟨.identifier, "b", .nil, 5⟩))
    statement ∈ (Source.ofText text).statements ∧ statement.tokens ≠ [] ∧
      IsLeast {line | ∃ t ∈ statement.tokens, t.line = line} statement.firstLine ∧
      statement.firstLine = 4 := by
  intro text statement
  have hsource : (Source.ofText text).statements = [statement] := by
    simp only [text, statement]
    with_unfolding_all rfl
  have hmem : statement ∈ (Source.ofText text).statements := by
    rw [hsource]
    exact List.mem_singleton_self statement
  have hne : statement.tokens ≠ [] := List.cons_ne_nil _ _
  obtain ⟨-, -, -, hline, -, hparsed⟩ := firstLine_exact statement
  exact ⟨hmem, hne, (hparsed text hmem).2 hne, hline _ rfl⟩

end Node

end LoxCore
