import TruthTables.Graph.Dot
import TruthTables.Proofs.FirstOccurrences

/-! # The graph of a formula shares its subformulas -/
namespace TruthTables

namespace Formula

inductive OccursIn (χ : Formula) : Formula → Prop
  | self : OccursIn χ χ
  | not {φ} : OccursIn χ φ → OccursIn χ (.not φ)
  | left {c φ ψ} : OccursIn χ φ → OccursIn χ (.binary c φ ψ)
  | right {c φ ψ} : OccursIn χ ψ → OccursIn χ (.binary c φ ψ)

theorem mem_subformulas_iff {χ φ : Formula} : χ ∈ φ.subformulas ↔ χ.OccursIn φ := by
  constructor
  · intro h
    induction φ with
    | symbol name => exact List.mem_singleton.1 h ▸ .self
    | not φ ih =>
      rcases List.mem_cons.1 h with rfl | h
      · exact .self
      · exact .not (ih h)
    | binary c φ ψ ihφ ihψ =>
      simp only [subformulas, List.mem_cons, List.mem_append] at h
      rcases h with rfl | h | h
      · exact .self
      · exact .left (ihφ h)
      · exact .right (ihψ h)
  · intro h
    induction h with
    | self => cases χ <;> exact List.mem_cons_self
    | not _ ih => exact List.mem_cons_of_mem _ ih
    | left _ ih => exact List.mem_cons_of_mem _ (List.mem_append_left _ ih)
    | right _ ih => exact List.mem_cons_of_mem _ (List.mem_append_right _ ih)

theorem OccursIn.trans {χ ψ φ : Formula} (h : χ.OccursIn ψ) (h' : ψ.OccursIn φ) : χ.OccursIn φ := by
  induction h' with
  | self => exact h
  | not _ ih => exact .not ih
  | left _ ih => exact .left ih
  | right _ ih => exact .right ih

theorem exists_subformulas_eq_cons (φ : Formula) : ∃ l, φ.subformulas = φ :: l := by
  cases φ <;> exact ⟨_, rfl⟩

end Formula

namespace Graph

theorem occursIn_of_mem_operands {φ ψ : Formula} {label : String} (h : (label, ψ) ∈ operands φ) :
    ψ.OccursIn φ ∧ ψ.subformulas.length < φ.subformulas.length := by
  cases φ with
  | symbol name => simp [operands] at h
  | not φ =>
    obtain ⟨-, rfl⟩ := Prod.mk.inj (List.mem_singleton.1 h)
    exact ⟨.not .self, Nat.lt_succ_self _⟩
  | binary c φ χ =>
    have hlen : (Formula.binary c φ χ).subformulas.length =
        φ.subformulas.length + χ.subformulas.length + 1 := by
      simp [Formula.subformulas]
    simp only [operands, List.mem_cons, Prod.mk.injEq, List.not_mem_nil, or_false] at h
    rcases h with ⟨-, rfl⟩ | ⟨-, rfl⟩
    · exact ⟨.left .self, by omega⟩
    · exact ⟨.right .self, by omega⟩

def edgesOf (g : Graph) (n : Nat) : List Edge := g.edges.filter (·.source = n)

section Edges

variable {g : Graph}

theorem source_of_mem_edgesFrom {φ : Formula} {n : Nat} {e : Edge} (h : e ∈ g.edgesFrom φ n) : e.source = n := by
  obtain ⟨⟨label, ψ⟩, -, h⟩ := List.mem_filterMap.1 h
  obtain ⟨target, -, rfl⟩ := Option.map_eq_some_iff.1 h
  rfl

theorem filter_edgesFrom (φ : Formula) (m n : Nat) :
    (g.edgesFrom φ m).filter (·.source = n) = if m = n then g.edgesFrom φ m else [] := by
  split
  · rename_i h
    rw [List.filter_eq_self]
    exact fun e he => decide_eq_true ((source_of_mem_edgesFrom he).trans h)
  · rename_i h
    rw [List.filter_eq_nil_iff]
    intro e he
    rw [source_of_mem_edgesFrom he]
    simp [h]

/-- The edges of a node are those of its formula, since every other node has another number. -/
theorem filter_operandEdges {n : Nat} {φ : Formula} (h : g.nodes[n]? = some φ) :
    g.operandEdges.filter (·.source = n) = g.edgesFrom φ n := by
  obtain ⟨hn, hφ⟩ := List.getElem?_eq_some_iff.1 h
  have hsplit : g.nodes = g.nodes.take n ++ φ :: g.nodes.drop (n + 1) := by
    rw [← hφ, List.getElem_cons_drop, List.take_append_drop]
  have hlen : (g.nodes.take n).length = n := List.length_take_of_le (Nat.le_of_lt hn)
  have none_of : ∀ l : List (Formula × Nat), (∀ p ∈ l, p.2 ≠ n) →
      (l.flatMap fun p => if p.2 = n then g.edgesFrom p.1 p.2 else []) = [] := by
    intro l hl
    rw [List.flatMap_eq_nil_iff]
    exact fun p hp => if_neg (hl p hp)
  have hbefore : ∀ p ∈ (g.nodes.take n).zipIdx, p.2 ≠ n := fun p hp => by
    have hlt := List.snd_lt_of_mem_zipIdx hp
    omega
  have hafter : ∀ p ∈ (g.nodes.drop (n + 1)).zipIdx (n + 1), p.2 ≠ n := fun p hp => by
    have hle := List.le_snd_of_mem_zipIdx hp
    omega
  have hzip : g.nodes.zipIdx = (g.nodes.take n).zipIdx ++ (φ, n) :: (g.nodes.drop (n + 1)).zipIdx (n + 1) := by
    conv_lhs => rw [hsplit]
    rw [List.zipIdx_append, hlen, Nat.zero_add, List.zipIdx_cons]
  rw [operandEdges, List.filter_flatMap]
  simp only [filter_edgesFrom]
  rw [hzip, List.flatMap_append, List.flatMap_cons, none_of _ hbefore, none_of _ hafter, if_pos rfl,
    List.nil_append, List.append_nil]

theorem mem_edges_iff {e : Edge} :
    e ∈ g.edges ↔ ∃ φ, g.nodes[e.source]? = some φ ∧ e ∈ g.edgesFrom φ e.source := by
  rw [edges, List.mem_eraseDups, operandEdges, List.mem_flatMap]
  constructor
  · rintro ⟨⟨φ, n⟩, hp, he⟩
    obtain rfl := source_of_mem_edgesFrom he
    exact ⟨φ, List.mk_mem_zipIdx_iff_getElem?.1 hp, he⟩
  · rintro ⟨φ, hφ, he⟩
    exact ⟨(φ, e.source), List.mk_mem_zipIdx_iff_getElem?.2 hφ, he⟩

end Edges

section OfFormula

variable {φ : Formula}

theorem mem_nodes_ofFormula {χ : Formula} : χ ∈ (ofFormula φ).nodes ↔ χ.OccursIn φ := by
  rw [ofFormula, List.mem_eraseDups, Formula.mem_subformulas_iff]

theorem exists_target {n : Nat} {χ ψ : Formula} {label : String} (h : (ofFormula φ).nodes[n]? = some χ)
    (hψ : (label, ψ) ∈ operands χ) :
    ∃ m, (ofFormula φ).nodes.idxOf? ψ = some m ∧ (ofFormula φ).nodes[m]? = some ψ := by
  have hχ : χ.OccursIn φ := mem_nodes_ofFormula.1 (List.mem_of_getElem? h)
  have hm : ψ ∈ (ofFormula φ).nodes := mem_nodes_ofFormula.2 ((occursIn_of_mem_operands hψ).1.trans hχ)
  obtain ⟨m, hidx⟩ := Option.isSome_iff_exists.1 (List.isSome_idxOf?.2 hm)
  obtain ⟨hlt, hget, -⟩ := List.idxOf?_eq_some_iff.1 hidx
  exact ⟨m, hidx, List.getElem?_eq_some_iff.2 ⟨hlt, hget⟩⟩

theorem edgesFrom_not {n : Nat} {ψ : Formula} (h : (ofFormula φ).nodes[n]? = some (.not ψ)) :
    ∃ m, (ofFormula φ).nodes[m]? = some ψ ∧ (ofFormula φ).edgesFrom (.not ψ) n = [⟨n, "", m⟩] := by
  obtain ⟨m, hidx, hm⟩ := exists_target h List.mem_cons_self
  refine ⟨m, hm, ?_⟩
  rw [edgesFrom]
  simp [operands, hidx]

theorem edgesFrom_binary {n : Nat} {c : Connective} {ψ χ : Formula}
    (h : (ofFormula φ).nodes[n]? = some (.binary c ψ χ)) :
    ∃ l r, (ofFormula φ).nodes[l]? = some ψ ∧ (ofFormula φ).nodes[r]? = some χ ∧
      (ofFormula φ).edgesFrom (.binary c ψ χ) n = [⟨n, "L", l⟩, ⟨n, "R", r⟩] := by
  obtain ⟨l, hidxl, hl⟩ := exists_target h List.mem_cons_self
  obtain ⟨r, hidxr, hr⟩ := exists_target h (List.mem_cons_of_mem _ List.mem_cons_self)
  refine ⟨l, r, hl, hr, ?_⟩
  rw [edgesFrom]
  simp [operands, hidxl, hidxr]

theorem nodup_operandEdges (φ : Formula) : (ofFormula φ).operandEdges.Nodup := by
  rw [operandEdges, List.nodup_flatMap]
  constructor
  · rintro ⟨χ, n⟩ hp
    have hχ : (ofFormula φ).nodes[n]? = some χ := List.mk_mem_zipIdx_iff_getElem?.1 hp
    change ((ofFormula φ).edgesFrom χ n).Nodup
    cases χ with
    | symbol name => exact .nil
    | not ψ =>
      obtain ⟨m, -, he⟩ := edgesFrom_not hχ
      rw [he]
      exact List.nodup_singleton _
    | binary c ψ χ =>
      obtain ⟨l, r, -, -, he⟩ := edgesFrom_binary hχ
      rw [he]
      simp
  · have hsnd : ((ofFormula φ).nodes.zipIdx.map Prod.snd).Nodup := by
      rw [List.zipIdx_map_snd]
      exact List.nodup_range'
    rw [List.Nodup, List.pairwise_map] at hsnd
    refine hsnd.imp fun {p q} hne e hp hq => hne ?_
    rw [← source_of_mem_edgesFrom hp, source_of_mem_edgesFrom hq]

/-- No edge is there twice, so leaving out repeats changes nothing. -/
theorem edges_ofFormula (φ : Formula) : (ofFormula φ).edges = (ofFormula φ).operandEdges :=
  eraseDups_of_nodup (nodup_operandEdges φ)

theorem edgesOf_eq {n : Nat} {χ : Formula} (h : (ofFormula φ).nodes[n]? = some χ) :
    (ofFormula φ).edgesOf n = (ofFormula φ).edgesFrom χ n := by
  rw [edgesOf, edges_ofFormula, filter_operandEdges h]

theorem edgesOf_not {n : Nat} {ψ : Formula} (h : (ofFormula φ).nodes[n]? = some (.not ψ)) :
    ∃ m, (ofFormula φ).nodes[m]? = some ψ ∧ (ofFormula φ).edgesOf n = [⟨n, "", m⟩] :=
  edgesOf_eq h ▸ edgesFrom_not h

theorem edgesOf_binary {n : Nat} {c : Connective} {ψ χ : Formula}
    (h : (ofFormula φ).nodes[n]? = some (.binary c ψ χ)) :
    ∃ l r, (ofFormula φ).nodes[l]? = some ψ ∧ (ofFormula φ).nodes[r]? = some χ ∧
      (ofFormula φ).edgesOf n = [⟨n, "L", l⟩, ⟨n, "R", r⟩] :=
  edgesOf_eq h ▸ edgesFrom_binary h

end OfFormula

/-- What the labels of the nodes and the edges say about the formula at a node. -/
inductive Reads (labels : List String) (edges : List Edge) : Nat → Formula → Prop
  | symbol {n name} : labels[n]? = some ("Var " ++ name) → Reads labels edges n (.symbol name)
  | not {n m φ} : labels[n]? = some "Not" → ⟨n, "", m⟩ ∈ edges → Reads labels edges m φ →
      Reads labels edges n (.not φ)
  | binary {n l r c φ ψ} : labels[n]? = some (Connective.name c) → ⟨n, "L", l⟩ ∈ edges →
      ⟨n, "R", r⟩ ∈ edges → Reads labels edges l φ → Reads labels edges r ψ →
      Reads labels edges n (.binary c φ ψ)

section Labels

variable {χ : Formula}

theorem var_append_ne_name (name : String) (c : Connective) : "Var " ++ name ≠ c.name := by
  intro h
  have hlist := congrArg String.toList h
  rw [String.toList_append] at hlist
  cases c <;> simp [Connective.name] at hlist

theorem var_append_ne_not (name : String) : "Var " ++ name ≠ "Not" := by
  intro h
  have hlist := congrArg String.toList h
  rw [String.toList_append] at hlist
  simp at hlist

theorem name_injective {c d : Connective} (h : c.name = d.name) : c = d := by
  cases c <;> cases d <;> simp_all [Connective.name]

theorem eq_symbol_of_nodeLabel {name : String} (h : nodeLabel χ = "Var " ++ name) : χ = .symbol name := by
  cases χ with
  | symbol other => rw [nodeLabel, String.append_right_inj] at h; rw [h]
  | not φ => exact absurd h.symm (var_append_ne_not name)
  | binary c φ ψ => exact absurd h.symm (var_append_ne_name name c)

theorem eq_not_of_nodeLabel (h : nodeLabel χ = "Not") : ∃ φ, χ = .not φ := by
  cases χ with
  | symbol name => exact absurd h (var_append_ne_not name)
  | not φ => exact ⟨φ, rfl⟩
  | binary c φ ψ => cases c <;> simp [nodeLabel, Connective.name] at h

theorem eq_binary_of_nodeLabel {c : Connective} (h : nodeLabel χ = c.name) : ∃ φ ψ, χ = .binary c φ ψ := by
  cases χ with
  | symbol name => exact absurd h (var_append_ne_name name c)
  | not φ => cases c <;> simp [nodeLabel, Connective.name] at h
  | binary d φ ψ => exact ⟨φ, ψ, by rw [name_injective h]⟩

end Labels

section Reading

variable {φ ψ χ : Formula} {n : Nat}

theorem mem_edges_of_mem_edgesOf {g : Graph} {e : Edge} (h : e ∈ g.edgesOf n) : e ∈ g.edges :=
  (List.mem_filter.1 h).1

theorem mem_edgesOf {g : Graph} {label : String} {m : Nat} (h : ⟨n, label, m⟩ ∈ g.edges) :
    ⟨n, label, m⟩ ∈ g.edgesOf n :=
  List.mem_filter.2 ⟨h, decide_eq_true rfl⟩

theorem getElem?_labels {g : Graph} (h : g.nodes[n]? = some χ) :
    (g.nodes.map nodeLabel)[n]? = some (nodeLabel χ) := by
  rw [List.getElem?_map, h]
  rfl

theorem reads_of_getElem? (h : (ofFormula φ).nodes[n]? = some χ) :
    Reads ((ofFormula φ).nodes.map nodeLabel) (ofFormula φ).edges n χ := by
  induction χ generalizing n with
  | symbol name => exact .symbol (getElem?_labels h)
  | not ψ ih =>
    obtain ⟨m, hm, he⟩ := edgesOf_not h
    exact .not (getElem?_labels h) (mem_edges_of_mem_edgesOf (by rw [he]; exact List.mem_cons_self)) (ih hm)
  | binary c ψ χ ihψ ihχ =>
    obtain ⟨l, r, hl, hr, he⟩ := edgesOf_binary h
    have hmem : ∀ e ∈ [⟨n, "L", l⟩, ⟨n, "R", r⟩], e ∈ (ofFormula φ).edges := fun e hmem =>
      mem_edges_of_mem_edgesOf (he ▸ hmem)
    exact .binary (getElem?_labels h) (hmem _ List.mem_cons_self)
      (hmem _ (List.mem_cons_of_mem _ List.mem_cons_self)) (ihψ hl) (ihχ hr)

/-- No other formula is read at a node, since its label says what edges it has, and it has no others. -/
theorem eq_of_reads (hreads : Reads ((ofFormula φ).nodes.map nodeLabel) (ofFormula φ).edges n ψ)
    (h : (ofFormula φ).nodes[n]? = some χ) : ψ = χ := by
  -- along the reading, since the node's own formula only shows in its label
  induction hreads generalizing χ with
  | symbol hlabel =>
    rw [getElem?_labels h] at hlabel
    exact (eq_symbol_of_nodeLabel (Option.some.inj hlabel)).symm
  | not hlabel hedge _ ih =>
    rw [getElem?_labels h] at hlabel
    obtain ⟨χ, rfl⟩ := eq_not_of_nodeLabel (Option.some.inj hlabel)
    obtain ⟨m, hm, he⟩ := edgesOf_not h
    have hedge' := mem_edgesOf hedge
    rw [he, List.mem_singleton, Edge.mk.injEq] at hedge'
    obtain ⟨-, -, rfl⟩ := hedge'
    rw [ih hm]
  | binary hlabel hleft hright _ _ ihl ihr =>
    rw [getElem?_labels h] at hlabel
    obtain ⟨χ, χ', rfl⟩ := eq_binary_of_nodeLabel (Option.some.inj hlabel)
    obtain ⟨l, r, hl, hr, he⟩ := edgesOf_binary h
    have hleft' := mem_edgesOf hleft
    have hright' := mem_edgesOf hright
    simp only [he, List.mem_cons, Edge.mk.injEq, List.not_mem_nil, or_false, true_and, false_and,
      String.reduceEq, false_or] at hleft' hright'
    rw [ihl (hleft' ▸ hl), ihr (hright' ▸ hr)]

end Reading

/-- The nodes are the different subformulas in the order in which a walk from the formula down and from the left
to the right comes upon them. All edges lead down to the operands, one to each operand, and nothing but the
formula can be read from the labels. -/
structure IsSharedGraphOf (g : Graph) (φ : Formula) : Prop where
  nodes : ∀ χ, χ ∈ g.nodes ↔ χ.OccursIn φ
  nodes_nodup : g.nodes.Nodup
  preorder : g.nodes.Pairwise fun χ ψ => φ.subformulas.idxOf χ < φ.subformulas.idxOf ψ
  root : g.nodes[0]? = some φ
  edges_nodup : g.edges.Nodup
  descends : ∀ e ∈ g.edges, ∃ χ ψ, g.nodes[e.source]? = some χ ∧ g.nodes[e.target]? = some ψ ∧
    ψ.subformulas.length < χ.subformulas.length
  symbol : ∀ n name, g.nodes[n]? = some (.symbol name) → g.edgesOf n = []
  not : ∀ n ψ, g.nodes[n]? = some (.not ψ) →
    ∃ m, g.nodes[m]? = some ψ ∧ g.edgesOf n = [⟨n, "", m⟩]
  binary : ∀ n c ψ χ, g.nodes[n]? = some (.binary c ψ χ) →
    ∃ l r, g.nodes[l]? = some ψ ∧ g.nodes[r]? = some χ ∧ g.edgesOf n = [⟨n, "L", l⟩, ⟨n, "R", r⟩]
  reads : ∀ ψ, Reads (g.nodes.map nodeLabel) g.edges 0 ψ ↔ ψ = φ

/-- The graph of a formula is the formula with equal subformulas shared, for names of any text. -/
theorem ofFormula_isSharedGraph (φ : Formula) : (ofFormula φ).IsSharedGraphOf φ := by
  have hroot : (ofFormula φ).nodes[0]? = some φ := by
    obtain ⟨l, hl⟩ := φ.exists_subformulas_eq_cons
    rw [ofFormula, hl, List.eraseDups_cons]
    rfl
  refine {
    nodes := fun _ => mem_nodes_ofFormula
    nodes_nodup := nodup_eraseDups _
    preorder := pairwise_idxOf_eraseDups _
    root := hroot
    edges_nodup := edges_ofFormula φ ▸ nodup_operandEdges φ
    descends := ?descends
    symbol := fun _ _ h => edgesOf_eq h
    not := fun _ _ h => edgesOf_not h
    binary := fun _ _ _ _ h => edgesOf_binary h
    reads := fun ψ => ⟨fun h => eq_of_reads h hroot, ?reads⟩ }
  case descends =>
    intro e he
    obtain ⟨χ, hχ, he⟩ := mem_edges_iff.1 he
    obtain ⟨⟨label, ψ⟩, hψ, hedge⟩ := List.mem_filterMap.1 he
    obtain ⟨m, hidx, hm⟩ := exists_target hχ hψ
    obtain ⟨target, htarget, hedge⟩ := Option.map_eq_some_iff.1 hedge
    have htarget' : e.target = m := by
      rw [← hedge]
      exact Option.some.inj (htarget.symm.trans hidx)
    exact ⟨χ, ψ, hχ, htarget' ▸ hm, (occursIn_of_mem_operands hψ).2⟩
  case reads =>
    rintro rfl
    exact reads_of_getElem? hroot

/-- Both operands may be the same node. -/
example : (ofFormula (.binary .and (.symbol "a") (.symbol "a"))).edges = [⟨0, "L", 1⟩, ⟨0, "R", 1⟩] := by decide

end Graph

end TruthTables
