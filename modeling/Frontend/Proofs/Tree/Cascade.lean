import Frontend.Proofs.Grammar.Derivation

/-! # Trees of operators

Operators that join two operands have a rank each, the higher the tighter they bind.
A tree over operands is ranked if no operator stands above a looser one, nor to the
left of one of its own rank. A sequence of operands and operators has one ranked tree
at most.
-/

namespace Frontend

/-- The rank of the operators that join two operands, from the loosest up. Other kinds have none. -/
def TokenKind.rank : TokenKind → ℕ
  | orOp => 1
  | andOp => 2
  | equalityOp => 3
  | relationalOp => 4
  | additiveOp => 5
  | multiplicativeOp => 6
  | _ => 0

/-- The node that a token makes of the operands on its sides, if it joins operands. -/
def Token.join? (t : Token) : Option (Node → Node → Node) :=
  match t.kind with
  | .orOp | .andOp => (Operator.ofSymbol? t.value).map Node.logicalExpr
  | .equalityOp | .relationalOp | .additiveOp | .multiplicativeOp =>
    (Operator.ofSymbol? t.value).map Node.binaryExpr
  | _ => none

/-- A token that joins two operands, with the node it makes of them. -/
structure Connective where
  token : Token
  join : Node → Node → Node
  join?_eq : token.join? = some join

namespace Connective

def rank (c : Connective) : ℕ := c.token.kind.rank

theorem rank_pos (c : Connective) : 0 < c.rank := by
  have h := c.join?_eq
  unfold rank
  cases hk : c.token.kind <;> first | decide | simp [Token.join?, hk] at h

end Connective

/-- A tree of operators, with operands at its leaves. -/
inductive OperatorTree where
  | operand (segment : Segment)
  | operation (c : Connective) (left right : OperatorTree)

namespace OperatorTree

def node : OperatorTree → Node
  | operand x => x.2
  | operation c left right => c.join left.node right.node

def first : OperatorTree → Segment
  | operand x => x
  | operation _ left _ => left.first

/-- The operators in order, each with the operand that stands behind it. -/
def rest : OperatorTree → List (Connective × Segment)
  | operand _ => []
  | operation c left right => left.rest ++ (c, right.first) :: right.rest

def root? : OperatorTree → Option Connective
  | operand _ => none
  | operation c _ _ => some c

/-- Every operator has operands or operators of no lower rank on its left, and operands or
operators of higher rank on its right. -/
def IsRanked : OperatorTree → Prop
  | operand _ => True
  | operation c left right => (∀ d ∈ left.root?, c.rank ≤ d.rank) ∧
      (∀ d ∈ right.root?, c.rank < d.rank) ∧ left.IsRanked ∧ right.IsRanked

/-- A tree over a sequence of operands and operators. -/
structure Spans (tree : OperatorTree) (x : Segment) (rest : List (Connective × Segment)) :
    Prop where
  first_eq : tree.first = x
  rest_eq : tree.rest = rest

variable {t u : OperatorTree} {n : ℕ}

theorem IsRanked.le_rank (h : t.IsRanked) (hn : ∀ c ∈ t.root?, n ≤ c.rank) :
    ∀ item ∈ t.rest, n ≤ item.1.rank := by
  induction t with
  | operand => nofun
  | operation c left right ihl ihr =>
    obtain ⟨hl, hr, hleft, hright⟩ := h
    have hc : n ≤ c.rank := hn c rfl
    simp only [rest, List.forall_mem_append, List.forall_mem_cons]
    exact ⟨ihl hleft fun d hd => hc.trans (hl d hd), hc,
      ihr hright fun d hd => hc.trans (hr d hd).le⟩

theorem IsRanked.not_before {c d : Connective} {left right left' right' : OperatorTree}
    {between : List (Connective × Segment)} (h : (operation c left right).IsRanked)
    (h' : (operation d left' right').IsRanked)
    (hl : left'.rest = left.rest ++ (c, right.first) :: between)
    (hr : right.rest = between ++ (d, right'.first) :: right'.rest) : False := by
  have hd : c.rank + 1 ≤ d.rank := h.2.2.2.le_rank h.2.1 (d, right'.first) (by simp [hr])
  have hc : d.rank ≤ c.rank := h'.2.2.1.le_rank h'.1 (c, right.first) (by simp [hl])
  omega

theorem IsRanked.divides {c d : Connective} {left right left' right' : OperatorTree}
    (ht : (operation c left right).IsRanked) (hu : (operation d left' right').IsRanked)
    (h : (operation c left right).rest = (operation d left' right').rest) :
    left.rest = left'.rest ∧ (c, right.first) = (d, right'.first) ∧ right.rest = right'.rest := by
  -- The list of the operators is divided at each root. Where one root comes first, the other
  -- one stands in its right subtree, and it in the left subtree of the other.
  rcases List.append_eq_append_iff.mp h with
    ⟨_ | ⟨item, between⟩, hl, hr⟩ | ⟨_ | ⟨item, between⟩, hl, hr⟩
  · obtain ⟨hroot, hr⟩ := List.cons.inj hr
    exact ⟨by simpa using hl.symm, hroot, hr⟩
  · obtain ⟨rfl, hbetween⟩ := List.cons.inj hr
    exact (ht.not_before hu hl hbetween).elim
  · obtain ⟨hroot, hr⟩ := List.cons.inj hr
    exact ⟨by simpa using hl, hroot.symm, hr.symm⟩
  · obtain ⟨rfl, hbetween⟩ := List.cons.inj hr
    exact (hu.not_before ht hl hbetween).elim

/-- A sequence has one ranked tree at most. -/
theorem IsRanked.eq_of_spans {x : Segment} {rest : List (Connective × Segment)} (ht : t.IsRanked)
    (hu : u.IsRanked) (h : t.Spans x rest) (h' : u.Spans x rest) : t = u := by
  induction t generalizing u x rest with
  | operand y =>
    obtain ⟨rfl, rfl⟩ := h
    cases u with
    | operand => exact congrArg operand h'.first_eq.symm
    | operation => simpa [OperatorTree.rest] using h'.rest_eq
  | operation c left right ihl ihr =>
    obtain ⟨rfl, rfl⟩ := h
    cases u with
    | operand => simpa [OperatorTree.rest] using h'.rest_eq
    | operation d left' right' =>
      obtain ⟨hl, hroot, hr⟩ := ht.divides hu h'.rest_eq.symm
      obtain ⟨rfl, hf⟩ := Prod.mk.inj hroot
      rw [ihl ht.2.2.1 hu.2.2.1 ⟨rfl, rfl⟩ ⟨h'.first_eq, hl.symm⟩,
        ihr ht.2.2.2 hu.2.2.2 ⟨rfl, rfl⟩ ⟨hf.symm, hr.symm⟩]

end OperatorTree

end Frontend
