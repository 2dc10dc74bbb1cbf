import LoopForest.Parser.Clauses

/-!
# Scanning a program

A program is scanned once from left to right. Tokens are passed over until one has the text that opens a loop; the header and the
body behind it are cut out, and the loop they make becomes a child of the root. The scan stops at the first loop it cannot read:
nothing of that loop stays in the forest, everything older does, and the cursor stays behind what was cut out, so that scanning again
goes on with the next loop.
-/

namespace LoopForest

namespace Parser

open Action (emit enclosed)

/-- Reads the loop behind a keyword that is passed already. -/
def parseConstruct (keyword : Location) : Action NodeId := do
  emit (.found keyword)
  let header ← enclosed .header
  let body ← enclosed .body
  emit (.delimited header.inner.length body.closed.length)
  let loop ← parseLoop header.inner body.closed keyword
  emit (.parsed loop)
  return loop

/-- Makes a loop a child of the root. -/
def attach (loop : NodeId) : Action Unit := fun p =>
  match p.forest.addChild Forest.root loop with
  | .ok forest => (.ok (), { p with forest := forest })
  | .error e => (.error (.tree e ((p.forest.location? loop).getD default)), p)

theorem forward_parseConstruct (keyword : Location) : (parseConstruct keyword).Forward :=
  (Action.forward_emit _).bind fun _ => (Action.forward_enclosed _).bind fun _ => (Action.forward_enclosed _).bind fun _ =>
    (Action.forward_emit _).bind fun _ => (forward_parseLoop _ _ _).bind fun _ =>
      (Action.forward_emit _).bind fun _ => Action.forward_pure _

theorem forward_attach (loop : NodeId) : (attach loop).Forward := by
  intro p
  unfold attach
  split <;> exact Nat.le_refl _

/-- Reads the loop behind a keyword that is passed already and makes it a child of the root. When it cannot be read, the nodes added
for it are taken back. -/
def addLoop (keyword : Location) : Action Unit := fun p =>
  match parseConstruct keyword p with
  | (.ok loop, q) => attach loop q
  | (.error e, q) => (.error e, { q with forest := q.forest.truncate p.forest.size })

theorem forward_addLoop (keyword : Location) : (addLoop keyword).Forward := by
  intro p
  have h := forward_parseConstruct keyword p
  unfold addLoop
  split
  · next loop q hq =>
    rw [hq] at h
    exact Nat.le_trans (forward_attach loop q) h
  · next e q hq =>
    rw [hq] at h
    exact h

/-- The parser with the cursor behind the next token `t`, when `rest` are the tokens behind that one. -/
def skip (p : Parser) (t : Token) (rest : List Token) : Parser := { p with cursor := p.cursor.moveTo [t] rest }

/-- Scans from the cursor to the end of the tokens. The answer is the root. -/
def parseProgram (p : Parser) : Except ParseError NodeId × Parser :=
  match _ : p.cursor.rest with
  | [] => (.ok Forest.root, p)
  | t :: rest =>
    if t.is p.options.keyword then
      let loop := addLoop t.location (p.skip t rest)
      match loop.1 with
      | .ok () => parseProgram loop.2
      | .error e => (.error e, loop.2)
    else parseProgram (p.skip t rest)
termination_by p.cursor.rest.length
decreasing_by
  all_goals
    have hrest : p.cursor.rest = t :: rest := ‹_›
    rw [hrest]
  · exact Nat.lt_succ_of_le (forward_addLoop t.location (p.skip t rest))
  · exact Nat.lt_succ_self _

end Parser

end LoopForest
