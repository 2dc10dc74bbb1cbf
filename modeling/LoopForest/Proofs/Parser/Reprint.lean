import LoopForest.Proofs.Forest.Rendering
import LoopForest.Proofs.Parser.Additions
import LoopForest.Proofs.Text.Progress
import LoopForest.Proofs.Text.Spacing

/-!
# What an outline prints reads again

The body of a loop and the two sides of a condition are kept as tokens, and an outline prints them on a line with one space between any
two. A token of a lexed program is a lexeme by itself, wherever it came from in the program, so what is printed reads as the tokens
that were kept (`words_reprinted`). The same goes for every part of the tokens of a text, written out with any gaps that begin with a
blank.

Which tokens a node keeps is said once, by `Node.tokenLists`. That a forest keeps none but the parser's own (`Forest.KeepsOnly`) follows
from what calls build.
-/

namespace LoopForest

/-- Lexemes that are written out with gaps between them read as themselves. -/
theorem Spaced.exists_tokensOf {part : List Token} {text : String} (h : Spaced part text.toList) (hpart : ∀ t ∈ part, t.IsLexeme) :
    ∃ again, tokensOf text = .ok again ∧ again.map Token.word = part.map Token.word :=
  (lexesTo_of_spaced hpart h).exists_tokensOf

/-! ## The tokens a node keeps -/

/-- The tokens a node keeps, each list under the name it has in an outline. -/
def Node.tokenLists : Node → List (String × List Token)
  | .loopCondition left _ right => [("Left", left), ("Right", right)]
  | .forLoop _ _ _ body => [("Body", body)]
  | .macroDef _ body => [("Body", body)]
  | _ => []

namespace Forest

variable {f : Forest} {tokens : List Token}

/-- All tokens that the nodes of the forest keep are among these. -/
def KeepsOnly (f : Forest) (tokens : List Token) : Prop :=
  ∀ id node, f.node? id = some node → ∀ named ∈ node.tokenLists, named.2 ⊆ tokens

theorem keepsOnly_empty (tokens : List Token) : empty.KeepsOnly tokens := allNodes_empty nofun

/-- An addition of tokens that may be kept keeps no others. -/
theorem KeepsOnly.extend (hf : f.KeepsOnly tokens) {a : Addition} (ha : a.Of tokens) : (f.extend a).KeepsOnly tokens := by
  refine AllNodes.extend hf ?_
  cases a with
  | target | initialization | update => simp [Addition.nodes, Node.tokenLists]
  | condition =>
    obtain ⟨hleft, hright⟩ := List.append_subset.mp ha
    simp only [Addition.nodes, Node.tokenLists, List.forall_mem_cons, List.not_mem_nil, false_implies, implies_true, and_true]
    exact ⟨hleft, hright⟩
  | loop | rootLoop =>
    obtain ⟨hcondition, hbody⟩ := List.append_subset.mp ha.1
    obtain ⟨hleft, hright⟩ := List.append_subset.mp hcondition
    simp only [Addition.nodes, Node.tokenLists, List.forall_mem_cons, List.not_mem_nil, false_implies, implies_true, and_true, true_and]
    exact ⟨⟨hleft, hright⟩, hbody⟩

/-- A node's tokens are printed one level below it. -/
theorem mem_render_of_tokenLists (hf : f.Linked) (hg : f.Grounded) {id : NodeId} {node : Node} (hnode : f.node? id = some node)
    {label : String} {kept : List Token} (hkept : (label, kept) ∈ node.tokenLists) (level : Nat) :
    indentation (level + 1) ++ label ++ ": " ++ Token.joined kept ∈ f.render id level := by
  obtain ⟨e, he, rfl⟩ := Option.map_eq_some_iff.mp hnode
  rw [render_node hf hg he]
  refine List.mem_cons_of_mem _ (List.mem_append_left _ ?_)
  cases hn : e.node <;> rw [hn] at hkept <;> simp only [Node.tokenLists, List.not_mem_nil] at hkept
  all_goals
    simp only [List.mem_cons, List.not_mem_nil, or_false, Prod.mk.injEq] at hkept
  case loopCondition => rcases hkept with ⟨rfl, rfl⟩ | ⟨rfl, rfl⟩ <;> simp [Node.contents, tokenLine, Token.joined]
  case forLoop | macroDef =>
    obtain ⟨rfl, rfl⟩ := hkept
    simp [Node.contents, tokenLine, Token.joined]

end Forest

namespace Parser

/-- The tokens of a lexed program are lexemes, and they are to come. -/
theorem isLexeme_of_ofSource {source : String} {p : Parser} (h : ofSource source = .ok p) :
    (∃ tokens, p = ofTokens tokens) ∧ ∀ t ∈ p.cursor.tokens, t.IsLexeme := by
  unfold ofSource at h
  cases htokens : tokensOf source with
  | error e =>
    rw [htokens] at h
    cases h
  | ok tokens =>
    rw [htokens] at h
    obtain rfl := Except.ok.inj h
    have hread : (Lexer.read .start (Piece.pieces source.toList)).1 = .ok tokens := htokens
    exact ⟨⟨tokens, rfl⟩, Lexer.isLexeme_of_read hread⟩

/-- Calls on tokens of the parser's own make its nodes keep no others. -/
theorem Sound.keepsOnly_run {p : Parser} (hp : p.Sound) {calls : List Call} (hcalls : ∀ call ∈ calls, call.tokens ⊆ p.cursor.tokens)
    (hf : p.forest.KeepsOnly p.cursor.tokens) : (p.run calls).forest.KeepsOnly p.cursor.tokens := by
  induction calls generalizing p with
  | nil => exact hf
  | cons call calls ih =>
    obtain ⟨hcall, hcalls⟩ := List.forall_mem_cons.mp hcalls
    obtain ⟨htokens, hbuilds⟩ := hp.builds_after call
    have hown : p.cursor.tokens ++ call.tokens ⊆ p.cursor.tokens := List.append_subset.mpr ⟨List.Subset.refl _, hcall⟩
    have hfirst : (p.after call).forest.KeepsOnly p.cursor.tokens :=
      hbuilds.keeps (P := (·.KeepsOnly p.cursor.tokens)) hf fun _ _ ha hg => hg.extend (ha.mono hown)
    have hrest := ih (hp.after call)
    rw [htokens] at hrest
    exact hrest hcalls hfirst

/-- Every part of the tokens that a lexer answers for a text, in whichever of its calls, can be written out with any gaps between two
tokens that begin with a blank, and what is written reads as the same kinds and texts in the same order. So does what an outline prints
of the tokens that the nodes of a lexed program keep: they are on a line one level below their node, under their name, and that text
reads as the tokens that are kept. -/
theorem words_reprinted :
    (∀ (source : String) (calls : Nat) (all part : List Token) (text : String),
      ((Lexer.ofSource source).afterCalls calls).tokenize.1 = .ok all → part <:+: all →
        Spaced part text.toList → ∃ again, tokensOf text = .ok again ∧ again.map Token.word = part.map Token.word) ∧
    (∀ (source : String) (p : Parser) (calls : List Call), ofSource source = .ok p →
      (∀ call ∈ calls, call.tokens ⊆ p.cursor.tokens) → ∀ id node, (p.run calls).forest.node? id = some node →
        ∀ label kept, (label, kept) ∈ node.tokenLists → ∀ level,
          indentation (level + 1) ++ label ++ ": " ++ Token.joined kept ∈ (p.run calls).forest.render id level ∧
            ∃ again, tokensOf (Token.joined kept) = .ok again ∧ again.map Token.word = kept.map Token.word) := by
  constructor
  · intro source calls all part text hall hpart hspaced
    obtain ⟨rest, hrest⟩ := Lexer.exists_pending_afterCalls source calls
    rw [Lexer.tokenize, hrest] at hall
    exact hspaced.exists_tokensOf fun t ht => Lexer.isLexeme_of_read hall t (hpart.subset ht)
  · intro source p calls hsource hcalls id node hnode label kept hkept level
    obtain ⟨⟨tokens, rfl⟩, hlexemes⟩ := isLexeme_of_ofSource hsource
    have hsound := Sound.ofTokens tokens
    have hreached := (hsound.run calls).reached
    have hkeeps := hsound.keepsOnly_run hcalls (Forest.keepsOnly_empty _)
    refine ⟨Forest.mem_render_of_tokenLists hreached.linked hreached.grounded hnode hkept level, ?_⟩
    exact (spaced_joined kept).exists_tokensOf fun t ht => hlexemes t (hkeeps id node hnode _ hkept ht)

/-- The statement at a text that a lexer reads on in after a fault, with a point behind a digit, and at a program with the opening of a
comment in a literal. -/
theorem words_reprinted_pointAndComment :
    let part : List Token := [⟨.literal, "1", ⟨1, 3⟩⟩, ⟨.operator, ".", ⟨1, 4⟩⟩, ⟨.operator, "<", ⟨1, 5⟩⟩]
    ((Lexer.ofSource "@ 1.<2").afterCalls 1).tokenize.1 = .ok (part ++ [⟨.literal, "2", ⟨1, 6⟩⟩]) ∧
    (∃ again, tokensOf "1\t/*;*/.\n#2\n<" = .ok again ∧ again.map Token.word = part.map Token.word) ∧
    ∃ p, ofSource "for(i=0;i<1;i++)\x7bs=\"/*\";\x7d" = .ok p ∧
      "  Body: \x7b s = \"/*\" ; \x7d" ∈ (p.run [.parseProgram]).forest.render 6 0 ∧
      ∃ again, tokensOf "\x7b s = \"/*\" ; \x7d" = .ok again ∧ again.map Token.word = [(.punctuation, "\x7b"),
        (.identifier, "s"), (.operator, "="), (.literal, "\"/*\""), (.punctuation, ";"), (.punctuation, "\x7d")] := by
  intro part
  have hall : ((Lexer.ofSource "@ 1.<2").afterCalls 1).tokenize.1 = .ok (part ++ [⟨.literal, "2", ⟨1, 6⟩⟩]) := by decide +kernel
  have hpoint : Gap (['/', '*'] ++ [';'] ++ ['*', '/']) := .cons (s := ['/', '*'] ++ [';'] ++ ['*', '/']) (.comment (by decide)) .nil
  have hline : Gap (['#'] ++ ['2'] ++ ['\n']) := .cons (s := ['#'] ++ ['2'] ++ ['\n']) (.line (by decide) (by decide)) .nil
  have hspaced : Spaced part "1\t/*;*/.\n#2\n<".toList :=
    .cons (b := '\t') (by decide) hpoint (.cons (b := '\n') (by decide) hline .single)
  refine ⟨hall, words_reprinted.1 _ 1 _ part _ hall (List.infix_append [] part _) hspaced, ?_⟩
  let body : List Token := [⟨.punctuation, "\x7b", ⟨1, 17⟩⟩, ⟨.identifier, "s", ⟨1, 18⟩⟩, ⟨.operator, "=", ⟨1, 19⟩⟩,
    ⟨.literal, "\"/*\"", ⟨1, 20⟩⟩, ⟨.punctuation, ";", ⟨1, 24⟩⟩, ⟨.punctuation, "\x7d", ⟨1, 25⟩⟩]
  have hbody : ((ofSource "for(i=0;i<1;i++)\x7bs=\"/*\";\x7d").toOption.bind fun p => (p.run [.parseProgram]).forest.node? 6) =
      some (.forLoop 2 3 5 body) := by decide +kernel
  cases hsource : ofSource "for(i=0;i<1;i++)\x7bs=\"/*\";\x7d" with
  | error e =>
    rw [hsource] at hbody
    cases hbody
  | ok p =>
    rw [hsource] at hbody
    have hcalls : ∀ call ∈ [Call.parseProgram], call.tokens ⊆ p.cursor.tokens := by simp [Call.tokens]
    obtain ⟨hline, hagain⟩ := words_reprinted.2 _ p _ hsource hcalls 6 _ hbody "Body" body List.mem_cons_self 0
    exact ⟨p, rfl, hline, hagain⟩

end Parser

end LoopForest
