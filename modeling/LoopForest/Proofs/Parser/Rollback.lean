import LoopForest.Proofs.Parser.Logging

/-!
# A scan that stops takes back one loop

A scan stops at a loop it cannot read, when nodes of that loop may be in the forest already, some of them owned by others. What it
leaves is the forest of a scan that ends right before the loop's keyword (`rollback_exact`): the loops before it are there, nodes
that other calls had added are there, and of the loop itself there is nothing.
-/

namespace LoopForest

/-- The cursor behind the first `position` of some tokens. -/
def Cursor.ofPosition (tokens : List Token) (position : Nat) : Cursor := ⟨(tokens.take position).reverse, tokens.drop position⟩

namespace Parser

/-- The same parser when only the first `count` tokens are there. -/
def cutTo (p : Parser) (count : Nat) : Parser := { p with cursor := .ofPosition (p.cursor.tokens.take count) p.cursor.position }

/-- Cut behind some tokens that are to come, a parser has those to come and no others. -/
theorem cutTo_eq {p : Parser} {before rest : List Token} (hrest : p.cursor.rest = before ++ rest) :
    p.cutTo (p.cursor.position + before.length) = p.followedBy before := by
  have hpos : p.cursor.position = p.cursor.passed.reverse.length := List.length_reverse.symm
  have htake : p.cursor.tokens.take (p.cursor.position + before.length) = p.cursor.passed.reverse ++ before := by
    rw [Cursor.tokens, hrest, hpos, ← List.append_assoc, ← List.length_append, List.take_left]
  rw [cutTo, htake, Cursor.ofPosition, hpos, List.take_left, List.drop_left, List.reverse_reverse]
  rfl

/-- Some steps of a scan go as many tokens further as they pass. -/
theorem Scans.position_eq {p q : Parser} (h : p.Scans q) (hp : p.Sound) {taken : List Token}
    (hrest : p.cursor.rest = taken ++ q.cursor.rest) : q.cursor.position = p.cursor.position + taken.length := by
  have hlength : q.cursor.tokens.length = p.cursor.tokens.length := congrArg List.length (h.builds hp).1
  rw [Cursor.length_tokens, Cursor.length_tokens, hrest, List.length_append] at hlength
  omega

/-- When a scan stops, the token at which it stops opens a loop: the scan of the tokens before that one ends well, with the forest
that is left now, and no clause is being read. -/
theorem rollback_exact {p q : Parser} {e : ParseError} (hp : p.Reached) (h : p.parseProgram = (.error e, q)) :
    ∃ k t, p.StopsAt k e q ∧ p.cursor.position ≤ k ∧ p.cursor.tokens[k]? = some t ∧ t.value = p.options.keyword ∧
      (∃ r, (p.cutTo k).parseProgram = (.ok Forest.root, r) ∧ r.forest = q.forest) ∧ q.clauseOpener = none := by
  obtain ⟨k, hstopsAt⟩ := exists_stopsAt h
  obtain ⟨hle, t, htoken, hkeyword⟩ := hstopsAt.exists_keyword hp.sound
  obtain ⟨stop, hscan, rfl, hstop⟩ := id hstopsAt
  obtain ⟨hforest, hopener⟩ := hstop.rollback (hscan.sound hp.sound)
  obtain ⟨before, hbefore, hframe⟩ := hscan.frame
  have hcut : (p.followedBy before).Scans (stop.followedBy []) := by
    have := hframe []
    rwa [List.append_nil] at this
  have hanswer : (p.cutTo stop.cursor.position).parseProgram = (.ok Forest.root, stop.followedBy []) := by
    rw [hscan.position_eq hp.sound hbefore, cutTo_eq hbefore, hcut.parseProgram_eq]
    exact parseProgram_of_nil rfl
  exact ⟨_, t, hstopsAt, hle, htoken, hkeyword, ⟨stop.followedBy [], hanswer, hforest.symm⟩, hopener⟩

/-- A parser before two loops, the second one without a condition. It has read a variable that no loop owns. -/
def secondLoopBroken : Parser :=
  (ofTokens (["for", "(", "i", "=", "0", ";", "i", "<", "1", ";", "i++", ")", "\x7b", "\x7d",
    "for", "(", "j", "=", "0", ";", ";", "j++", ")", "\x7b", "\x7d"].map fun text => ⟨.identifier, text, .start⟩)).run
      [.parseTarget [⟨.identifier, "x", .start⟩]]

/-- The statement at that parser: its scan stops at the keyword of the second loop, not at that of the first one. -/
theorem rollback_exact_secondLoopBroken :
    ∃ e q t, secondLoopBroken.parseProgram = (.error e, q) ∧ secondLoopBroken.StopsAt 14 e q ∧
      secondLoopBroken.cursor.position ≤ 14 ∧ secondLoopBroken.cursor.tokens[14]? = some t ∧
      t.value = secondLoopBroken.options.keyword ∧
      (∃ r, (secondLoopBroken.cutTo 14).parseProgram = (.ok Forest.root, r) ∧ r.forest = q.forest) ∧ q.clauseOpener = none := by
  have hp : secondLoopBroken.Reached := ⟨_, _, rfl⟩
  have hstop : secondLoopBroken.parseProgram.1.isOk = false := by decide +kernel
  have hkeywords : ∀ k < secondLoopBroken.cursor.tokens.length, secondLoopBroken.cursor.tokens[k]?.map Token.value =
      some secondLoopBroken.options.keyword → k = 0 ∨ k = 14 := by decide +kernel
  -- cut in front of the first keyword, the scan adds no loop, but the scan that stops has added one
  have hfirst : (secondLoopBroken.cutTo 0).parseProgram.2.forest ≠ secondLoopBroken.parseProgram.2.forest := by decide +kernel
  rcases h : secondLoopBroken.parseProgram with ⟨e | root, q⟩
  · obtain ⟨k, t, hstopsAt, hle, htoken, hvalue, ⟨r, hcut, hforest⟩, hopener⟩ := rollback_exact hp h
    have hlt := (List.getElem?_eq_some_iff.mp htoken).1
    rcases hkeywords k hlt (by rw [htoken, Option.map_some, hvalue]) with rfl | rfl
    · rw [hcut, h] at hfirst
      exact absurd hforest hfirst
    · exact ⟨e, q, t, rfl, hstopsAt, hle, htoken, hvalue, ⟨r, hcut, hforest⟩, hopener⟩
  · rw [h] at hstop
    cases hstop

end Parser

end LoopForest
