import LoopForest.Proofs.Forest.Resemblance
import LoopForest.Proofs.Parser.Shape

/-!
# Updates and what they mean

An update means a target, an operator and a value, whichever way it is written: a step by one means to add one or to take one away, be
it in one text with its name or in a text of its own. What an update means settles what is built for it, and the other way round: two
updates mean the same exactly when the nodes built for them are the same but for their numbers and their places (`Forest.SameBelow`),
and exactly when these render as the same lines at any level.

The nodes of an update are an expression and the assignment that owns it (`Forest.HoldsUpdate`). The argument is about these two alone
and runs in a circle: what the updates mean gives the nodes, the nodes give the lines, and the second, third and fifth line of five give
back what the update means.
-/

namespace LoopForest

namespace Update

/-- What an update does: its target, its operator and its value. Its place is not part of it. -/
def meaning (u : Update) : String × String × String := (u.target, u.operator, u.value)

theorem meaning_eq_iff {u v : Update} :
    u.meaning = v.meaning ↔ u.target = v.target ∧ u.operator = v.operator ∧ u.value = v.value := by
  simp [meaning]

/-- The ways to write a step of `name` by one. -/
inductive Step (name op : String) : List Token → Prop where
  /-- The name and the operator twice behind it, in one text. -/
  | joined (t : Token) (ht : t.value = name ++ op ++ op) : Step name op [t]
  /-- The name, and the operator twice. -/
  | apart (target step : Token) (htarget : target.value = name) (hstep : step.value = op ++ op) : Step name op [target, step]
  /-- The name, an assignment that combines, and a one. -/
  | combined (target assign value : Token) (htarget : target.value = name) (hassign : assign.value = op ++ "=")
    (hvalue : value.value = "1") : Step name op [target, assign, value]

/-- Every way to write a step is an update that means the step. -/
theorem Step.exists_written {name op : String} {tokens : List Token} (h : Step name op tokens) (hname : name ≠ "")
    (hop : op ∈ stepOperators) : ∃ u, Written tokens u ∧ u.meaning = (name, op, "1") := by
  cases h with
  | joined t ht => exact ⟨_, .stepped t ht hname hop, rfl⟩
  | apart target step htarget hstep => exact ⟨_, .apart target step hstep hop, by simp [meaning, htarget]⟩
  | combined target assign value htarget hassign hvalue =>
    have hop' : op ∈ updateOperators := List.mem_of_mem_take (i := 2) hop
    exact ⟨_, .combined target assign value hassign hop', by simp [meaning, htarget, hvalue]⟩

end Update

namespace Forest

variable {f g : Forest} {first first' : NodeId} {u v : Update}

/-- An expression stands in the forest and behind it the assignment that owns it, as an update says, and nothing else is below it. -/
structure HoldsUpdate (f : Forest) (first : NodeId) (u : Update) : Prop where
  step : f.node? first = some (.binary u.operator (.raw u.target) (.raw u.value))
  update : f.node? (first + 1) = some (.assignment (.raw u.target) (.node first))
  step_owner : f.parent? first = some (first + 1)
  step_childless : f.children first = []
  update_childless : f.children (first + 1) = []

/-- The nodes of an update that is added stand behind all others. -/
theorem holdsUpdate_withUpdate (hroot : root < f.size) (u : Update) : (f.withUpdate u).HoldsUpdate f.size u where
  step := by simp [withUpdate, node?_withNode]
  update := by simp [withUpdate, node?_withNode]
  step_owner := by simp [parent?_withUpdate hroot]
  step_childless := by simp [withUpdate, children_withNode, children_eq_nil_of_le]
  update_childless := by simp [withUpdate, children_withNode, children_eq_nil_of_le]

namespace HoldsUpdate

theorem preorder (h : f.HoldsUpdate first u) : f.Preorder (first + 1) [first + 1, first] := by
  have hstep : f.Preorder first [first] := .childless h.step h.step_childless (fun _ => []) nofun
  refine .childless h.update h.update_childless (fun _ => [first]) fun c hc => ?_
  obtain rfl := List.mem_singleton.mp hc
  exact hstep

/-- The nodes of updates that mean the same are the same. -/
theorem sameBelow (h : f.HoldsUpdate first u) (h' : g.HoldsUpdate first' v) (hmeaning : u.meaning = v.meaning) :
    f.SameBelow (first + 1) g (first' + 1) (fun c => first' + (c - first)) [first + 1, first] := by
  obtain ⟨htarget, hoperator, hvalue⟩ := Update.meaning_eq_iff.mp hmeaning
  refine ⟨h.preorder, by simpa using h'.preorder, ?_, ?_, ?_, ?_⟩
  · simp [Nat.add_left_comm, Nat.add_assoc, Nat.add_comm]
  · simp [h.step, h.update, h'.step, h'.update, Node.renumber, Operand.renumber, htarget, hoperator, hvalue]
  · simp [h.step_childless, h.update_childless, h'.step_childless, h'.update_childless]
  · simp [h.step_owner, h'.step_owner]

/-- The nodes of an update render as five lines. -/
theorem render_eq (hf : f.Reached) (h : f.HoldsUpdate first u) (level : Nat) :
    f.render (first + 1) level =
      [indentation level ++ "Assignment", indentation (level + 1) ++ "Operand: " ++ u.target,
        indentation (level + 1) ++ ("Binary Expression: " ++ u.operator), indentation (level + 2) ++ "Operand: " ++ u.target,
        indentation (level + 2) ++ "Operand: " ++ u.value] := by
  have hstep := fun level => render_childless hf.linked hf.grounded h.step h.step_childless level
  rw [render_childless hf.linked hf.grounded h.update h.update_childless]
  simp [Node.contents, Operand.shownLines, hstep, Node.header, Node.detail, Node.title]

/-- The lines of an update give back what it means. -/
theorem meaning_eq_of_render_eq (hf : f.Reached) (hg : g.Reached) (h : f.HoldsUpdate first u) (h' : g.HoldsUpdate first' v) {level : Nat}
    (hlines : f.render (first + 1) level = g.render (first' + 1) level) : u.meaning = v.meaning := by
  rw [h.render_eq hf, h'.render_eq hg] at hlines
  simp only [List.cons.injEq, String.append_right_inj, and_true, true_and] at hlines
  obtain ⟨htarget, hoperator, -, hvalue⟩ := hlines
  exact Update.meaning_eq_iff.mpr ⟨htarget, hoperator, hvalue⟩

/-- What updates mean, the nodes built for them and the lines of these settle each other. -/
theorem agree (hf : f.Reached) (hg : g.Reached) (h : f.HoldsUpdate first u) (h' : g.HoldsUpdate first' v) :
    ((∃ σ nodes, f.SameBelow (first + 1) g (first' + 1) σ nodes) ↔ u.meaning = v.meaning) ∧
      ∀ level, f.render (first + 1) level = g.render (first' + 1) level ↔ u.meaning = v.meaning := by
  refine ⟨⟨?_, ?_⟩, fun level => ⟨?_, ?_⟩⟩
  · rintro ⟨σ, nodes, hsame⟩
    exact h.meaning_eq_of_render_eq hf hg h' (hsame.render_eq hf hg 0)
  · intro hmeaning
    exact ⟨_, _, h.sameBelow h' hmeaning⟩
  · exact h.meaning_eq_of_render_eq hf hg h'
  · intro hmeaning
    exact (h.sameBelow h' hmeaning).render_eq hf hg level

end HoldsUpdate

end Forest

namespace Parser

/-- A call for an update answers a node just when the tokens are an update, and then that is the node of the update. -/
theorem parseUpdate_eq_ok_iff {p : Parser} (hp : p.Reached) {tokens : List Token} {id : NodeId} {p' : Parser} :
    parseUpdate tokens p = (.ok id, p') ↔
      ∃ u, Update.Written tokens u ∧ id = p.forest.size + 1 ∧ p' = p.withForest (p.forest.withUpdate u) := by
  rw [parseUpdate_eq hp.sound.reached.root_lt_size]
  cases h : Update.ofTokens tokens with
  | ok u =>
    simp only [Prod.mk.injEq, Except.ok.injEq, ← Update.ofTokens_eq_ok_iff, h, exists_eq_left', Forest.extend]
    exact and_congr eq_comm eq_comm
  | error m =>
    simp [← Update.ofTokens_eq_ok_iff, h]

theorem reached_withUpdate {p : Parser} (hp : p.Reached) {tokens : List Token} {u : Update} (h : Update.Written tokens u) :
    (p.forest.withUpdate u).Reached := by
  have hcall := (parseUpdate_eq_ok_iff hp).mpr ⟨u, h, rfl, rfl⟩
  have hsound := hp.sound.after (.parseUpdate tokens)
  rw [after, hcall] at hsound
  exact hsound.reached

/-- Of any two calls for an update that answer a node, on any two parsers in use, the nodes are the same, but for their numbers and their
places, exactly when the two updates mean the same, and they render as the same lines exactly then, at whatever level. All ways to write
a step by one of a name that is not empty, be it with signs at its end, are updates that mean the same. -/
theorem updates_canonical {p q : Parser} (hp : p.Reached) (hq : q.Reached) :
    (∀ ts us a b p' q', parseUpdate ts p = (.ok a, p') → parseUpdate us q = (.ok b, q') →
      ∃ u v, Update.Written ts u ∧ Update.Written us v ∧
        ((∃ σ nodes, p'.forest.SameBelow a q'.forest b σ nodes) ↔ u.meaning = v.meaning) ∧
        ∀ level, p'.forest.render a level = q'.forest.render b level ↔ u.meaning = v.meaning) ∧
    ∀ name op, name ≠ "" → op ∈ stepOperators → ∀ ts us, Update.Step name op ts → Update.Step name op us →
      ∃ a b p' q', parseUpdate ts p = (.ok a, p') ∧ parseUpdate us q = (.ok b, q') ∧
        (∃ σ nodes, p'.forest.SameBelow a q'.forest b σ nodes) ∧ ∀ level, p'.forest.render a level = q'.forest.render b level := by
  have hagree : ∀ {ts us u v}, Update.Written ts u → Update.Written us v →
      ((∃ σ nodes, (p.forest.withUpdate u).SameBelow (p.forest.size + 1) (q.forest.withUpdate v) (q.forest.size + 1) σ nodes) ↔
        u.meaning = v.meaning) ∧
      ∀ level, (p.forest.withUpdate u).render (p.forest.size + 1) level = (q.forest.withUpdate v).render (q.forest.size + 1) level ↔
        u.meaning = v.meaning := by
    intro ts us u v hu hv
    have hholds := Forest.holdsUpdate_withUpdate hp.sound.reached.root_lt_size u
    have hholds' := Forest.holdsUpdate_withUpdate hq.sound.reached.root_lt_size v
    exact hholds.agree (reached_withUpdate hp hu) (reached_withUpdate hq hv) hholds'
  refine ⟨fun ts us a b p' q' hts hus => ?_, fun name op hname hop ts us hts hus => ?_⟩
  · obtain ⟨u, hu, rfl, rfl⟩ := (parseUpdate_eq_ok_iff hp).mp hts
    obtain ⟨v, hv, rfl, rfl⟩ := (parseUpdate_eq_ok_iff hq).mp hus
    exact ⟨u, v, hu, hv, hagree hu hv⟩
  · obtain ⟨u, hu, hmeaning⟩ := hts.exists_written hname hop
    obtain ⟨v, hv, hmeaning'⟩ := hus.exists_written hname hop
    have hsame : u.meaning = v.meaning := hmeaning.trans hmeaning'.symm
    obtain ⟨hbelow, hrender⟩ := hagree hu hv
    exact ⟨_, _, _, _, (parseUpdate_eq_ok_iff hp).mpr ⟨u, hu, rfl, rfl⟩, (parseUpdate_eq_ok_iff hq).mpr ⟨v, hv, rfl, rfl⟩,
      hbelow.mpr hsame, fun level => (hrender level).mpr hsame⟩

/-- The statement at a parser that has read a variable and a fresh one, for a step of a name that ends in two signs, written in one text
and with a one, and for the step of the name without its signs that is written in a text of its own. -/
theorem updates_canonical_signedName :
    let token (text : String) : Token := ⟨.identifier, text, ⟨1, 1⟩⟩
    let p := (ofTokens []).run [.parseTarget [token "x"]]
    let q := ofTokens []
    (parseUpdate [token "i++++"] p).1 = .ok 3 ∧ (parseUpdate [token "i++", token "+=", token "1"] q).1 = .ok 2 ∧
      (∃ σ nodes, (parseUpdate [token "i++++"] p).2.forest.SameBelow 3
        (parseUpdate [token "i++", token "+=", token "1"] q).2.forest 2 σ nodes) ∧
      ¬∃ σ nodes, (parseUpdate [token "i++++"] p).2.forest.SameBelow 3
        (parseUpdate [token "i", token "++"] q).2.forest 2 σ nodes := by
  intro token p q
  have hp : p.Reached := ⟨_, _, rfl⟩
  have hq : q.Reached := ⟨_, [], rfl⟩
  have hjoined : (parseUpdate [token "i++++"] p).1 = .ok 3 := by decide +kernel
  have hcombined : (parseUpdate [token "i++", token "+=", token "1"] q).1 = .ok 2 := by decide +kernel
  have hapart : (parseUpdate [token "i", token "++"] q).1 = .ok 2 := by decide +kernel
  obtain ⟨hagree, hsteps⟩ := updates_canonical hp hq
  obtain ⟨a, b, p', q', hts, hus, hsame, -⟩ :=
    hsteps "i++" "+" (by decide) (by decide) _ _ (.joined (token "i++++") (by decide))
      (.combined (token "i++") (token "+=") (token "1") rfl (by decide) rfl)
  obtain ⟨u, v, hu, hv, hdiffer, -⟩ := hagree _ _ a 2 p' (parseUpdate [token "i", token "++"] q).2 hts (Prod.ext hapart rfl)
  have hne : u.meaning ≠ v.meaning := by
    have hu' : Update.ofTokens [token "i++++"] = .ok ⟨"i++", "+", "1", ⟨1, 1⟩⟩ := by decide +kernel
    have hv' : Update.ofTokens [token "i", token "++"] = .ok ⟨"i", "+", "1", ⟨1, 1⟩⟩ := by decide +kernel
    obtain rfl := Except.ok.inj (hu'.symm.trans (Update.ofTokens_eq_ok_iff.mpr hu))
    obtain rfl := Except.ok.inj (hv'.symm.trans (Update.ofTokens_eq_ok_iff.mpr hv))
    decide
  rw [hts] at hjoined ⊢
  rw [hus] at hcombined ⊢
  obtain rfl := Except.ok.inj hjoined
  obtain rfl := Except.ok.inj hcombined
  exact ⟨rfl, rfl, hsame, fun hsame' => hne (hdiffer.mp hsame')⟩

end Parser

end LoopForest
