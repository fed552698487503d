import SharpLint.Proofs.Syntax.Place

/-!
# String Literals

A string literal is a token, or a node with holes between two marks. Either way
it begins and ends with ink, though its inside may be anything: blank lines, or
padding at the ends of lines.

## Main definitions

* `Kind.isString`: the kinds of string literals.
* `Tree.Worded`: a string literal without holes has a text.

## Theorems

* `Grammar.Reads.worded`: What a grammar reads is worded.
* `Document.parse_worded`: So is every parsed document.
* `Document.Has.solid_of_isString`: A string literal begins and ends with ink.
-/

namespace SharpLint

open Text

namespace Text

/-- What begins with one solid text and ends with another is solid. -/
theorem Solid.append {a b : Text} (ha : a.Solid) (hb : b.Solid) (mid : Text) :
    (a ++ mid ++ b).Solid := by
  obtain ⟨⟨c, rest, rfl, hc⟩, -⟩ := ha
  obtain ⟨-, init, d, rfl, hd⟩ := hb
  exact ⟨⟨c, rest ++ mid ++ (init ++ [d]), rfl, hc⟩,
    c :: rest ++ mid ++ init, d, (List.append_assoc _ init [d]).symm, hd⟩

/-- Two parts of a text, the second behind the first, begin and end a part. -/
theorem HoldsAt.between {text a b : Text} {m n : Nat} (ha : text.HoldsAt m a)
    (hb : text.HoldsAt n b) (hle : m + size a ≤ n) :
    ∃ mid, text.HoldsAt m (a ++ mid ++ b) ∧ m + size (a ++ mid) = n := by
  obtain ⟨before, after, rfl, rfl⟩ := ha
  obtain ⟨before', after', htext, rfl⟩ := hb
  rw [List.append_assoc before'] at htext
  obtain ⟨mid, rfl, rfl⟩ := exists_append_of_size_le htext (by rwa [size_append])
  refine ⟨mid, ⟨before, after', by simp only [List.append_assoc], rfl⟩, ?_⟩
  simp only [size_append, Nat.add_assoc]

end Text

namespace Kind

/-- The kinds of string literals that are tokens. -/
def isStringToken : Kind → Bool
  | .stringLiteral | .verbatimStringLiteral | .rawStringLiteral => true
  | _ => false

/-- The kinds of string literals. -/
def isString (kind : Kind) : Bool :=
  kind.isStringToken || kind == .interpolatedStringExpression

end Kind

/-- Whether the form, where it makes a node, makes no string token. -/
def Form.makesNoString : Form → Bool
  | .node kind _ => !kind.isStringToken
  | _ => true

/-- A string literal without holes has a text. -/
def Tree.Worded (tree : Tree) : Prop :=
  tree.kind.isStringToken = true → tree.lexeme ≠ ""

theorem Tree.Worded.relabel {tree : Tree} (h : Every Worded tree) (label : Option Label) :
    Every Worded { tree with label } :=
  .intro h.here fun _ hchild => h.child hchild

namespace Grammar

variable {grammar : Grammar}

theorem IsAside.worded {tree : Tree} (h : IsAside tree) : tree.Every Tree.Worded := by
  refine .intro (fun _ => h.text) fun child hchild => ?_
  have hword := h.words child hchild
  refine .intro (fun _ => hword.text) fun inner hinner => ?_
  rw [hword.leaf] at hinner
  exact absurd hinner List.not_mem_nil

/-- What a grammar reads is worded, if it reads strings as tokens only. -/
theorem Reads.worded (hgrammar : grammar.Everywhere Form.makesNoString) {form : Form}
    {cursor after : Cursor} {trees : List Tree} (h : Reads grammar form cursor trees after)
    (hform : form.everywhere Form.makesNoString = true) :
    ∀ tree ∈ trees, tree.Every Tree.Worded := by
  refine h.forall_mem hgrammar.inherits (fun _ haside => haside.worded) ?_ ?_
    (fun _ _ hfirst => Tree.Worded.relabel hfirst _) ?_ hform
  · intro kind lexeme gap cursor behind tree _ hfits htake
    have hrest : cursor.rest ≠ [] := fun hnil => hfits (by rw [hnil, length_nil])
    simp only [Cursor.take, Tree.ofToken, Prod.mk.injEq] at htake
    rw [← htake.1]
    exact .intro (fun _ => Cursor.lexeme_ne_empty hrest hfits)
      (by simp only [List.not_mem_nil, false_implies, implies_true])
  · intro kind form cursor after trees children extras span hform _ hread _ htrees _
    simp only [Form.everywhere, Form.makesNoString, Bool.and_eq_true, Bool.not_eq_true'] at hform
    refine .intro (fun hstring => absurd (hform.1.symm.trans hstring) Bool.false_ne_true)
      fun child hchild => hread child (htrees ▸ List.mem_append_left _ hchild)
  · intro base step cursor middle after first node rest extras _ _ _ hbase hnode
    exact .intro hnode.here (forall_withBase
      (Tree.Worded.relabel (hbase first List.mem_cons_self) _)
      (fun child hchild => hbase child (List.mem_cons_of_mem _ hchild))
      fun _ hchild => hnode.child hchild)

set_option maxRecDepth 100000 in
theorem makesNoString_phrases :
    (phrases.all fun phrase => (csharp phrase).everywhere Form.makesNoString) = true := by
  decide +kernel

theorem makesNoString_csharp : csharp.Everywhere Form.makesNoString :=
  forall_csharp (fun _ form => form.everywhere Form.makesNoString) makesNoString_phrases
    fun _ _ => rfl

set_option maxRecDepth 100000 in
theorem makesNoString_tolerantBody : tolerantBody.everywhere Form.makesNoString = true := by
  decide +kernel

theorem makesNoString_tolerant : tolerant.Everywhere Form.makesNoString :=
  forall_tolerant (fun _ form => form.everywhere Form.makesNoString) makesNoString_csharp
    makesNoString_tolerantBody

end Grammar

namespace Document

theorem worded_of_read? {grammar : Grammar} (hgrammar : grammar.Everywhere Form.makesNoString)
    {source : Text} {trees : List Tree} (h : read? grammar source = some trees) :
    ∀ tree ∈ trees, tree.Every Tree.Worded := by
  obtain ⟨extras, start, read, after, hskip, hreads, rfl⟩ := exists_reads_of_read? h
  intro tree hmem
  rcases List.mem_append.1 hmem with hmem | hmem
  · exact (Grammar.isAside_of_skip _ hskip tree hmem).worded
  · exact hreads.worded hgrammar rfl tree hmem

/-- The string literals without holes of a parsed document have texts. -/
theorem parse_worded (source : Text) : (parse source).tree.Every Tree.Worded := by
  refine .intro (fun hfalse => absurd hfalse Bool.false_ne_true) ?_
  rcases children_parse source with hread | hread | ⟨-, hbroken⟩
  · exact worded_of_read? Grammar.makesNoString_csharp hread
  · exact worded_of_read? Grammar.makesNoString_tolerant hread
  · rw [hbroken, broken, List.forall_mem_singleton]
    exact .intro (fun hfalse => absurd hfalse Bool.false_ne_true)
      (by simp only [List.not_mem_nil, false_implies, implies_true])

open Place

/-- A token stands in the source where its place is. -/
theorem Has.holds_token {document : Document} {p : Place} (h : document.Has p)
    (hsound : document.Sound) (hlexeme : p.node.lexeme ≠ "") :
    document.source.HoldsAt p.start p.node.lexeme.toList
      ∧ p.start + size p.node.lexeme.toList = p.stop :=
  slice?_eq_some_iff_holdsAt.1 ((h.laidOut hsound).token hlexeme)

/-- A string literal begins and ends with ink. -/
theorem Has.solid_of_isString {document : Document} {p : Place} (h : document.Has p)
    (hsound : document.Sound) (hworded : document.tree.Every Tree.Worded)
    (hkind : p.kind.isString = true) :
    ∃ text, document.source.HoldsAt p.start text ∧ p.start + size text = p.stop ∧ text.Solid := by
  rw [Kind.isString, Bool.or_eq_true, beq_iff_eq] at hkind
  have hshape := h.shaped hsound
  rcases hkind with hkind | hkind
  · have hlexeme : p.node.lexeme ≠ "" := (Below.every h hworded).here hkind
    obtain ⟨hholds, hsize⟩ := h.holds_token hsound hlexeme
    refine ⟨_, hholds, hsize, hshape.solid hlexeme ?_ ?_⟩ <;>
    · change p.node.kind.isStringToken = true at hkind
      cases hp : p.node.kind <;> rw [hp] at hkind <;>
        first | rfl | exact absurd hkind Bool.false_ne_true
  · -- The marks around the holes are solid.
    obtain ⟨opening, closing, n, hfirst, hlast, hstart, hstop, hfit⟩ :=
      h.exists_brackets hsound (by rw [hkind]; rfl)
    rw [hkind] at hfit
    simp only [Kind.bracketsFit, Bool.and_eq_true, Bool.not_eq_true', List.isEmpty_eq_false_iff]
      at hfit
    obtain ⟨⟨⟨hopening, hopeningBound⟩, hclosing⟩, hclosingBound⟩ := hfit
    obtain ⟨hopeningAt, hopeningStop⟩ := (h.child hfirst).holds_token hsound
      fun hempty => hopening (congrArg String.toList hempty)
    obtain ⟨hclosingAt, hclosingStop⟩ := (h.child hlast).holds_token hsound
      fun hempty => hclosing (congrArg String.toList hempty)
    have horder := h.child_order hsound hfirst hlast (Nat.succ_pos n)
    obtain ⟨mid, hholds, hsize⟩ := hopeningAt.between hclosingAt (by omega)
    refine ⟨_, hstart ▸ hholds, ?_, (Lexeme.solid_of_isBounded hopeningBound hopening).append
      (Lexeme.solid_of_isBounded hclosingBound hclosing) mid⟩
    rw [size_append, ← Nat.add_assoc, ← hstart, hsize, hclosingStop, hstop]

end Document

end SharpLint
