import LoopForest.Proofs.Parser.Rejection

/-!
# What a failed call leaves behind

A scan takes back what it has added for a loop it cannot read. The other calls take nothing back, and what they leave in the forest when
they stop is known (`Parser.failure_footprint`). A variable, an initialization, a condition or an update that is refused leaves nothing:
of two nodes, either both are added or none. A loop that is refused leaves the nodes of the clauses ahead of the one that is rejected, and
no node takes these over: two nodes for the initialization, of which the second owns the first, and one more for the condition.
-/

namespace LoopForest

/-! ## Nodes that nothing takes over -/

/-- How many nodes come of the clauses ahead of this one. -/
def Role.nodesAhead : Role → Nat
  | .initialization => 0
  | .condition => 2
  | .update => 3

namespace Forest

/-- The second forest is the first with this many nodes behind the others, which stay what they are. The second of the new nodes owns the
first one, and nothing owns the others. -/
structure LeavesBehind (f g : Forest) (count : Nat) : Prop where
  size_eq : g.size = f.size + count
  get?_eq : ∀ id < f.size, g.get? id = f.get? id
  parent?_eq : ∀ id, f.size ≤ id → id < g.size → g.parent? id = if id = f.size then some (f.size + 1) else none

theorem LeavesBehind.refl (f : Forest) : f.LeavesBehind f 0 :=
  ⟨rfl, fun _ _ => rfl, fun _ hle hlt => absurd hlt (Nat.not_lt.mpr hle)⟩

theorem leavesBehind_withInitialization {f : Forest} (hroot : root < f.size) (i : Initialization) :
    f.LeavesBehind (f.withInitialization i) 2 := by
  refine ⟨size_withInitialization f i, fun id hid => ?_, fun id hle _ => ?_⟩
  · have hold : id ∉ (Node.assignment (.node f.size) (.raw i.value)).fieldIds := fun hm =>
      Nat.ne_of_lt hid (List.mem_singleton.mp hm)
    have hid' : id < (f.withNode (.var i.target.name i.target.type) i.target.location).size := by
      rw [size_withNode]
      exact Nat.lt_succ_of_lt hid
    rw [withInitialization, get?_withNode_of_lt _ hid' hold, get?_withNode_of_lt _ hid List.not_mem_nil]
  · rw [parent?_withInitialization hroot, parent?_eq_none_of_le hle]

/-- A condition behind them is one node more that nothing owns. -/
theorem LeavesBehind.withCondition {f g : Forest} {count : Nat} (h : f.LeavesBehind g (count + 1)) (c : Condition) (place : Location) :
    f.LeavesBehind (g.withCondition c place) (count + 2) := by
  refine ⟨by rw [size_withCondition, h.size_eq, Nat.add_assoc], fun id hid => ?_, fun id hle _ => ?_⟩
  · have hid' : id < g.size := h.size_eq ▸ Nat.lt_add_right _ hid
    rw [Forest.withCondition, get?_withNode_of_lt _ hid' List.not_mem_nil, h.get?_eq id hid]
  · rw [parent?_withCondition]
    by_cases hid : id < g.size
    · exact h.parent?_eq id hle hid
    · have hne : id ≠ f.size := by
        have := h.size_eq
        omega
      rw [parent?_eq_none_of_le (Nat.le_of_not_lt hid), if_neg hne]

end Forest

/-- A fault leaves the nodes of the clauses ahead of the one that is rejected. -/
theorem LoopFault.exists_rejectedAt {lookup : Lookup} {header : List Token} {fault : LoopFault} {f : Forest}
    (hroot : Forest.root < f.size) (h : Loop.ofHeader lookup header = .error fault) :
    ∃ stage, Header.RejectedAt lookup header stage ∧ f.LeavesBehind (fault.leaves f) (stage.elim 0 Role.nodesAhead) := by
  have hread := Loop.readBy_ofHeader lookup header
  rw [h] at hread
  cases hread with
  | header hfault => exact ⟨none, .header (Header.ofTokens_eq_error_iff.mp hfault), .refl f⟩
  | initialization hclauses he =>
    obtain ⟨m, hm, -⟩ := Clause.initialization_eq_error_iff.mp he
    exact ⟨some .initialization, .clause (Header.ofTokens_eq_ok_iff.mp hclauses) (.initialization hm.not_written), .refl f⟩
  | @condition _ i _ hclauses hi he =>
    obtain ⟨cause, hcause, -⟩ := Clause.condition_eq_error_iff.mp he
    have hrejects := Header.Rejects.condition (Clause.initialization_eq_ok_iff.mp hi) hcause.not_written
    exact ⟨some .condition, .clause (Header.ofTokens_eq_ok_iff.mp hclauses) hrejects, Forest.leavesBehind_withInitialization hroot i⟩
  | @update clauses i c _ hclauses hi hc he =>
    obtain ⟨hno, -⟩ := Clause.update_eq_error_iff.mp he
    have hrejects := Header.Rejects.update (Clause.initialization_eq_ok_iff.mp hi) (Clause.condition_eq_ok_iff.mp hc) hno
    exact ⟨some .update, .clause (Header.ofTokens_eq_ok_iff.mp hclauses) hrejects,
      (Forest.leavesBehind_withInitialization hroot i).withCondition c clauses.condition.place⟩

namespace Parser

/-- Calls on a parser in use other than scans leave the cursor where it is and know no clause opener afterwards. When a call for a variable,
an initialization, a condition or an update stops, the forest stays what it is. A call for a loop stops just when the header is rejected,
as a whole or at one of its clauses. Then the nodes there were stay what they are, and there are more behind them: none when the header is
rejected as a whole or at its initialization, two when it is at its condition, and three when it is at its update. The second of these owns
the first, and nothing owns the others. -/
theorem failure_footprint {p : Parser} (hp : p.Reached) :
    (∀ parse ∈ [parseTarget, parseInitialization, parseCondition, parseUpdate], ∀ tokens answer q, parse tokens p = (answer, q) →
      (q.clauseOpener = none ∧ q.cursor = p.cursor) ∧ ∀ e, answer = .error e → q.forest = p.forest) ∧
    ∀ header body location answer q, parseLoop header body location p = (answer, q) →
      (q.clauseOpener = none ∧ q.cursor = p.cursor) ∧
      ((∃ e, answer = .error e) ↔ ∃ stage, Header.RejectedAt p.lookup header stage) ∧
      ∀ stage, Header.RejectedAt p.lookup header stage → p.forest.LeavesBehind q.forest (stage.elim 0 Role.nodesAhead) := by
  have hroot := hp.sound.reached.root_lt_size
  have hstill : ∀ f, (p.withForest f).clauseOpener = none ∧ (p.withForest f).cursor = p.cursor := fun f => ⟨hp.sound.no_opener, rfl⟩
  refine ⟨fun parse hparse tokens answer q h => ?_, fun header body location answer q h => ?_⟩
  · rcases part_cases hroot hparse tokens with ⟨id, a, heq, -⟩ | ⟨e, heq, -⟩ <;>
      obtain ⟨rfl, rfl⟩ := Prod.mk.inj (heq.symm.trans h)
    · exact ⟨hstill _, nofun⟩
    · exact ⟨hstill p.forest, fun _ _ => rfl⟩
  · rw [parseLoop_eq hroot hp.sound.no_opener] at h
    cases hread : Loop.ofHeader p.lookup header with
    | ok l =>
      simp only [hread] at h
      obtain ⟨rfl, rfl⟩ := Prod.mk.inj h
      have hwritten := Loop.ofHeader_eq_ok_iff.mp hread
      have hno : ∀ stage, ¬ Header.RejectedAt p.lookup header stage := fun stage hstage => hstage.not_written hwritten
      refine ⟨hstill _, iff_of_false (by simp) ?_, fun stage hstage => absurd hstage (hno stage)⟩
      exact fun ⟨stage, hstage⟩ => hno stage hstage
    | error fault =>
      simp only [hread] at h
      obtain ⟨rfl, rfl⟩ := Prod.mk.inj h
      obtain ⟨stage, hstage, hleaves⟩ := LoopFault.exists_rejectedAt hroot hread
      refine ⟨hstill _, iff_of_true ⟨_, rfl⟩ ⟨stage, hstage⟩, fun stage' hstage' => ?_⟩
      obtain rfl := hstage.unique hstage'
      exact hleaves

/-- The statement at a parser that has read a variable, for the header of a loop whose update is only a name, and for such an update. -/
theorem failure_footprint_stepMissing :
    let token (text : String) : Token := ⟨.identifier, text, ⟨2, 1⟩⟩
    let p := (ofTokens []).run [.parseTarget [token "x"]]
    let header := ["(", "int", "i", "=", "0", ";", "i", "<", "3", ";", "i"].map token
    let q := (parseLoop header [] ⟨1, 1⟩ p).2
    p.Reached ∧ p.forest.size = 2 ∧ Header.RejectedAt p.lookup header (some .update) ∧
      (∃ e, (parseLoop header [] ⟨1, 1⟩ p).1 = .error e) ∧ q.clauseOpener = none ∧ q.cursor = p.cursor ∧
      p.forest.LeavesBehind q.forest 3 ∧
      (∃ e, (parseUpdate [token "i"] p).1 = .error e) ∧ (parseUpdate [token "i"] p).2.forest = p.forest := by
  intro token p header q
  have hp : p.Reached := ⟨_, _, rfl⟩
  have hsize : p.forest.size = 2 := by decide +kernel
  have hupdate : (parseUpdate [token "i"] p).1 = .error (.unsupported "update" "1 token(s) 'i'" ⟨2, 1⟩) := by decide +kernel
  have hmisread : Update.ofTokens [token "i"] = .error ⟨"update", [token "i"]⟩ := by decide +kernel
  have hno := (Update.ofTokens_eq_error_iff.mp hmisread).1
  have hclauses : Header.Written header ⟨⟨token "(", ["int", "i", "=", "0"].map token⟩, ⟨token ";", ["i", "<", "3"].map token⟩,
      ⟨token ";", [token "i"]⟩⟩ := Header.ofTokens_eq_ok_iff.mp (by decide +kernel)
  have hlookup : p.lookup (["i", "<", "3"].map token) = .ok 1 := by decide +kernel
  have hrejected : Header.RejectedAt p.lookup header (some .update) :=
    .clause hclauses (.update (.declared _ _ _ _) (.intro hlookup (by decide)) hno)
  obtain ⟨hpart, hloop⟩ := failure_footprint hp
  obtain ⟨⟨hopener, hcursor⟩, hstops, hleaves⟩ := hloop header [] ⟨1, 1⟩ _ q rfl
  obtain ⟨-, hforest⟩ := hpart parseUpdate (by simp) [token "i"] _ _ rfl
  exact ⟨hp, hsize, hrejected, hstops.mpr ⟨_, hrejected⟩, hopener, hcursor, hleaves _ hrejected, ⟨_, hupdate⟩, hforest _ hupdate⟩

end Parser

end LoopForest
