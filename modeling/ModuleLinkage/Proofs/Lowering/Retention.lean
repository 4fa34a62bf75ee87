import ModuleLinkage.Proofs.Lowering.Changes

/-!
# No edit is lost

For a tree that lies over its text, the edits that remove or replace something and the insertions
around writes are `Settled` (`settled_node`): the induction is over the tree, and each form of node
adds its own edits to those of its parts.
-/

set_option autoImplicit false

namespace ModuleLinkage.Lowering

open Syntax Text EditList

/-! ### The calls that edits make -/

/-- Whether a node is a write. -/
def isWrite (node : Node) : Prop :=
  ∃ operator, node.form = .assignment operator ∨ node.form = .update operator

/-- The edits that begin and end a call around an expression of a tree: a write, or what is exported
as the default. -/
inductive IsCall (subject : Subject) (root : Node) : Edit → Edit → Prop
  | write {node : Node} (hoccurs : node.Occurs root) (hwrite : isWrite node) :
      IsCall subject root (opening subject.reference node.span.start) (closing node.span.stop)
  | exportDefault {node inner : Node} (hoccurs : node.Occurs root) (hform : node.form = .exportDefault)
      (hparts : node.parts = [inner]) (hexpression : inner.isDeclared = false) :
      IsCall subject root (defaultOpening subject node.span.start inner.span.start)
        (closing inner.span.stop)

theorem IsCall.inside {subject : Subject} {part root : Node} {first last : Edit}
    (hform : root.form ≠ .namespaceDeclaration true) (hpart : part ∈ root.parts)
    (h : IsCall subject part first last) : IsCall subject root first last := by
  cases h with
  | write hoccurs hwrite => exact .write (.inside hform hpart hoccurs) hwrite
  | exportDefault hoccurs hdefault hparts hexpression =>
    exact .exportDefault (.inside hform hpart hoccurs) hdefault hparts hexpression

/-! ### Parts beside each other -/

/-- The edits of parts that lie beside each other, or have none. -/
theorem Settled.flatMap {calls : Edit → Edit → Prop} {reference : String} {whole : Span}
    {nodes : List Node} {changes wraps : Node → List Edit}
    (hnodes : ∀ node ∈ nodes, Settled calls reference node.extent (changes node) (wraps node))
    (hwithin : ∀ node ∈ nodes, whole.start ≤ node.lead ∧ node.span.stop ≤ whole.stop)
    (hbeside : nodes.Pairwise fun first second => changes first ++ wraps first = [] ∨
      changes second ++ wraps second = [] ∨ first.isBeside second = true) :
    Settled calls reference whole (nodes.flatMap changes) (nodes.flatMap wraps) := by
  induction nodes with
  | nil => exact .nil
  | cons node rest ih =>
    rw [List.pairwise_cons] at hbeside
    have hrest := ih (fun other hother => hnodes other (by simp [hother]))
      (fun other hother => hwithin other (by simp [hother])) hbeside.2
    rw [List.flatMap_cons, List.flatMap_cons]
    by_cases hsilent : changes node ++ wraps node = []
    · obtain ⟨hchanges, hwraps⟩ := List.append_eq_nil_iff.mp hsilent
      rw [hchanges, hwraps]
      exact hrest
    -- An edit of a later part lies where that part does.
    have hplace (edit : Edit) (hedit : edit ∈ rest.flatMap changes ++ rest.flatMap wraps) :
        node.span.stop ≤ edit.span.start ∨ edit.span.stop < node.lead := by
      obtain ⟨other, hother, hmem⟩ : ∃ other ∈ rest, edit ∈ changes other ++ wraps other := by
        rcases List.mem_append.mp hedit with hedit | hedit <;>
          obtain ⟨other, hother, hmem⟩ := List.mem_flatMap.mp hedit
        · exact ⟨other, hother, List.mem_append_left _ hmem⟩
        · exact ⟨other, hother, List.mem_append_right _ hmem⟩
      have hnonempty : changes other ++ wraps other ≠ [] := List.ne_nil_of_mem hmem
      have hbetween := ((hbeside.1 other hother).resolve_left hsilent).resolve_left hnonempty
      obtain ⟨-, hstart, -, hstop⟩ := (hnodes other (by simp [hother])).isWithin hmem
      simp only [Node.isBeside, Bool.or_eq_true, decide_eq_true_eq] at hbetween
      exact hbetween.imp (fun h => h.trans hstart) fun h => hstop.trans_lt h
    obtain ⟨hstart, hstop⟩ := hwithin node (by simp)
    have hnode := hnodes node (by simp)
    obtain ⟨own, hown⟩ := List.exists_mem_of_ne_nil _ hsilent
    have hlt : node.lead < node.span.stop := hnode.start_lt_stop hown
    refine hnode.insert hrest hstart hlt.le hstop (fun edit hedit => ?_) ?_
    · exact (hplace edit hedit).symm.imp_left Nat.le_of_lt
    · intro edit hedit hahead other hother
      obtain ⟨-, hfrom, hto, -⟩ := hnode.isWithin hother
      have hforward := (hrest.isWithin hedit).2.2.1
      dsimp only [Node.extent] at hahead hfrom
      refine .of_span fun hspan => ?_
      rw [← hspan] at hahead hforward
      have := hplace edit hedit
      rw [← hspan] at this
      omega

/-! ### Each node -/

theorem isActive_of_ownChanges {subject : Subject} {inNamespace : Bool} {node : Node}
    (h : ownChanges subject inNamespace node ≠ []) : Node.isActive node.form = true := by
  obtain ⟨span, form, parts⟩ := node
  cases form <;> first | rfl | exact absurd rfl h

theorem isWrite_of_ownWraps {reference : String} {exported shadowed : List String} {node : Node}
    (h : ownWraps reference exported shadowed node ≠ []) : isWrite node := by
  obtain ⟨span, form, parts⟩ := node
  cases form
  case assignment operator => exact ⟨operator, .inl rfl⟩
  case update operator => exact ⟨operator, .inr rfl⟩
  all_goals exact absurd rfl h

theorem isActive_of_isWrite {node : Node} (h : isWrite node) : Node.isActive node.form = true := by
  obtain ⟨operator, hform | hform⟩ := h <;> rw [hform] <;> rfl

/-- Nothing is done about a node itself unless its form is active. -/
theorem own_eq_nil (subject : Subject) (exported : List String) {node : Node}
    (hpassive : Node.isActive node.form = false) (inNamespace : Bool) (shadowed : List String) :
    ownChanges subject inNamespace node = [] ∧
      ownWraps subject.reference exported shadowed node = [] := by
  constructor
  · by_contra h
    rw [isActive_of_ownChanges h] at hpassive
    cases hpassive
  · by_contra h
    rw [isActive_of_isWrite (isWrite_of_ownWraps h)] at hpassive
    cases hpassive

/-- What is collected from a node is its own and that of its parts. -/
theorem exists_changes_eq (subject : Subject) {node : Node}
    (hform : node.form ≠ .namespaceDeclaration true) (inNamespace : Bool) :
    ∃ inside, collect (ownChanges subject) inNamespace node =
      ownChanges subject inNamespace node ++
        node.parts.flatMap (collect (ownChanges subject) inside) := by
  refine exists_collect_eq _ hform (fun inside hnamespace => ?_) inNamespace
  by_contra h
  have hactive := isActive_of_ownChanges h
  rw [hnamespace] at hactive
  cases hactive

/-- Quiet nodes have no edits. -/
theorem edits_of_isQuiet (subject : Subject) (exported : List String) {node : Node}
    (hquiet : node.isQuiet = true) (inNamespace : Bool) (shadowed : List String) :
    collect (ownChanges subject) inNamespace node = [] ∧
      wraps subject.reference exported shadowed node = [] := by
  induction node using Node.induction generalizing inNamespace shadowed with
  | step span form parts ih =>
    by_cases hform : (Node.mk span form parts).form = .namespaceDeclaration true
    · obtain rfl : form = .namespaceDeclaration true := hform
      exact ⟨rfl, rfl⟩
    obtain ⟨hpassive, hparts⟩ := (Node.isQuiet_iff hform).mp hquiet
    obtain ⟨inside, hchanges⟩ := exists_changes_eq subject hform inNamespace
    obtain ⟨hown, hownWraps⟩ := own_eq_nil subject exported hpassive inNamespace shadowed
    constructor
    · rw [hchanges, hown, List.nil_append, List.flatMap_eq_nil_iff]
      exact fun part hpart => (ih part hpart (hparts part hpart) inside shadowed).1
    · rw [wraps_eq hform, hownWraps, List.append_nil, listWraps_eq, List.flatMap_eq_nil_iff]
      exact fun part hpart => (ih part hpart (hparts part hpart) inside _).2

theorem not_isBracket_removalFrom (subject : Subject) (start stop : Nat) :
    ¬ (removalFrom subject start stop).IsBracket := by
  rintro ⟨-, htext | htext⟩
  · have hmem : ')' ∈ (removalFrom subject start stop).text := by
      rw [htext]
      exact List.mem_singleton.mpr rfl
    simpa [removalFrom, Edit.removal, Edit.replacement, Edit.lineBreaks] using List.of_mem_filter hmem
  · have hmem := List.mem_of_getLast? htext
    simpa [removalFrom, Edit.removal, Edit.replacement, Edit.lineBreaks] using List.of_mem_filter hmem

theorem not_isBracket_keywordChange (subject : Subject) (start : Nat) :
    ¬ (keywordChange subject start).IsBracket := by
  have hlast : (keywordChange subject start).text.getLast? = some 't' := by
    simp [keywordChange, Edit.replacement]
  rintro ⟨-, htext | htext⟩
  · rw [htext] at hlast
    cases hlast
  · rw [htext] at hlast
    cases hlast

/-! ### A node and its parts -/

variable {subject : Subject} {exported : List String}

/-- The edits of a node itself that are no insertions around it, together with those of its parts.
`inner` gives the edits of the parts, wherever a span of the parts begins. -/
theorem settled_own {node : Node} {calls : Edit → Edit → Prop} {changes : Node → List Edit}
    {wraps : List Edit} (inNamespace : Bool) (hlaid : node.laid subject.source = true)
    (hform : node.form ≠ .namespaceDeclaration true)
    (hcalls : ∀ inner, node.form = .exportDefault → node.parts = [inner] → inner.isDeclared = false →
      calls (defaultOpening subject node.span.start inner.span.start) (closing inner.span.stop))
    (hquiet : (∀ part ∈ node.parts, part.isQuiet = true) → node.parts.flatMap changes ++ wraps = [])
    (hclear : ∀ part offset, node.parts = [part] → part.isClearOf offset = true →
      ∀ edit ∈ node.parts.flatMap changes ++ wraps,
        edit.span.stop ≤ offset ∨ part.span.start ≤ edit.span.start)
    (hparts : ∀ whole, (∀ part ∈ node.parts,
      whole.start ≤ part.lead ∧ part.span.stop ≤ whole.stop) →
        Settled calls subject.reference whole (node.parts.flatMap changes) wraps) :
    Settled calls subject.reference node.extent
      (ownChanges subject inNamespace node ++ node.parts.flatMap changes) wraps := by
  obtain ⟨hfits, hcovers, hwithin, -, hlaidParts⟩ := (Node.laid_iff hform).mp hlaid
  have hfront : node.extent.start ≤ node.span.start := node.lead_le
  have hall : Settled calls subject.reference node.extent (node.parts.flatMap changes) wraps :=
    hparts node.extent hwithin
  -- A declaration that is removed as a whole has quiet parts.
  have hremoved (hlt : node.span.start < node.span.stop) (hquiets : Node.allQuiet node.parts = true) :
      Settled calls subject.reference node.extent
        ([removalFrom subject node.span.start node.span.stop] ++ node.parts.flatMap changes)
        wraps := by
    have hnone := hquiet (by simpa [Node.allQuiet_eq] using hquiets)
    refine hall.insert_single rfl hlt (not_isBracket_removalFrom _ _ _) hfront (Nat.le_refl _) ?_
    intro edit hedit
    rw [hnone] at hedit
    cases hedit
  have hprefix {inner : Node} (hparts : node.parts = [inner])
      (hlt : node.span.start < inner.span.start) (hclearOf : inner.isClearOf node.span.start = true)
      (hle : inner.span.start ≤ inner.span.stop) :
      Settled calls subject.reference node.extent
        ([removalFrom subject node.span.start inner.span.start] ++ node.parts.flatMap changes)
        wraps := by
    refine hall.insert_single rfl hlt (not_isBracket_removalFrom _ _ _) hfront ?_ ?_
    · exact hle.trans (hwithin inner (by simp [hparts])).2
    · exact hclear inner _ hparts hclearOf
  have hinner (inner : Node) (hparts : node.parts = [inner]) : inner.span.start ≤ inner.span.stop :=
    Node.start_le_stop_of_laid (hlaidParts inner (by simp [hparts]))
  obtain ⟨span, form, parts⟩ := node
  cases form with
  | importDeclaration typeOnly =>
    simp only [Node.coversText, Node.form_mk, Node.parts_mk, Bool.and_eq_true,
      decide_eq_true_eq] at hcovers
    exact hremoved hcovers.1 hcovers.2
  | exportAll typeOnly =>
    simp only [Node.coversText, Node.form_mk, Node.parts_mk, Bool.and_eq_true,
      decide_eq_true_eq] at hcovers
    exact hremoved hcovers.1 hcovers.2
  | exportNames typeOnly =>
    simp only [Node.coversText, Node.form_mk, Node.parts_mk, Bool.and_eq_true,
      decide_eq_true_eq] at hcovers
    cases inNamespace with
    | true => exact hall
    | false => exact hremoved hcovers.1 hcovers.2
  | exportDeclaration typeOnly =>
    rcases parts with _ | ⟨declaration, _ | ⟨second, rest⟩⟩
    · exact hall
    · simp only [Node.coversText, Node.form_mk, Node.parts_mk, Bool.and_eq_true,
        decide_eq_true_eq] at hcovers
      cases inNamespace with
      | true => exact hall
      | false => exact hprefix rfl hcovers.1 hcovers.2 (hinner declaration rfl)
    · exact hall
  | exportDefault =>
    rcases parts with _ | ⟨inner, _ | ⟨second, rest⟩⟩
    · exact hall
    · simp only [Node.coversText, Node.form_mk, Node.parts_mk, Bool.and_eq_true,
        decide_eq_true_eq] at hcovers
      unfold ownChanges
      dsimp only [Node.form_mk, Node.parts_mk, Node.span_mk] at hcovers ⊢
      by_cases hdeclared : inner.isDeclared = true
      · rw [if_pos hdeclared] at hcovers ⊢
        exact hprefix rfl hcovers.1 hcovers.2 (hinner inner rfl)
      · rw [if_neg hdeclared] at hcovers ⊢
        simp only [Bool.and_eq_true, decide_eq_true_eq] at hcovers
        obtain ⟨hlt, hlead, hnonempty⟩ := hcovers
        have hexpression := hparts inner.span fun part hpart => by
          obtain rfl : part = inner := List.mem_singleton.mp hpart
          exact ⟨hlead, Nat.le_refl _⟩
        have hcall := @Settled.call _ _ _ _ _ (defaultOpening subject span.start inner.span.start)
          hexpression rfl hlt hnonempty (hcalls inner rfl rfl (by simpa using hdeclared))
        exact hcall.widen hfront (hwithin inner (by simp)).2
    · exact hall
  | importCall =>
    simp only [Node.coversText, Node.form_mk, Node.parts_mk, Bool.and_eq_true, List.all_eq_true,
      decide_eq_true_eq] at hcovers
    obtain ⟨-, hstop, hbehind⟩ := hcovers
    have harguments := hparts ⟨span.start + "import".length, span.stop⟩ fun part hpart =>
      ⟨hbehind part hpart, (hwithin part hpart).2⟩
    refine hall.insert_single rfl ?_ (not_isBracket_keywordChange _ _) hfront hstop ?_
    · exact Nat.lt_add_of_pos_right (by decide)
    · exact fun edit hedit => .inr (harguments.isWithin hedit).2.1
  | _ => exact hall

/-! ### The induction -/

/-- Edits of the parts of a node that all lie where the parts do leave room for what stands before
the node. -/
theorem clear_of_parts {node : Node} {edits : List Edit} {offset : Nat}
    (hclear : node.isClearOf offset = true) (hextent : ∀ edit ∈ edits, IsWithin node.extent edit)
    (hparts : Node.isActive node.form = false →
      ∀ edit ∈ edits, ∃ part ∈ node.parts, part.isQuiet = false ∧ IsWithin part.extent edit) :
    ∀ edit ∈ edits, edit.span.stop ≤ offset ∨ node.span.start ≤ edit.span.start := by
  intro edit hedit
  unfold Node.isClearOf at hclear
  split at hclear
  · next hform =>
    obtain ⟨part, hpart, -, -, hstart, -, hstop⟩ := hparts (by rw [hform]; rfl) edit hedit
    have hside := List.all_eq_true.mp hclear part hpart
    simp only [Bool.or_eq_true, decide_eq_true_eq] at hside
    exact hside.imp (fun h => hstop.trans h) fun h => h.trans hstart
  · exact .inr ((decide_eq_true_eq.mp hclear).trans (hextent edit hedit).2.1)

theorem ownWraps_of_ne_nil {reference : String} {shadowed : List String} {node : Node}
    (h : ownWraps reference exported shadowed node ≠ []) :
    ownWraps reference exported shadowed node = wrapping reference node.span := by
  unfold ownWraps at h ⊢
  split
  · rfl
  · next hfree => exact absurd (if_neg hfree) h

theorem extent_of_isWrite {node : Node} (h : isWrite node) : node.extent = node.span := by
  obtain ⟨span, form, parts⟩ := node
  obtain ⟨operator, hform | hform⟩ := h
  · obtain rfl : form = .assignment operator := hform
    rfl
  · obtain rfl : form = .update operator := hform
    rfl

theorem lt_of_isWrite {source : List Char} {node : Node} (h : isWrite node)
    (hcovers : node.coversText source = true) : node.span.start < node.span.stop := by
  obtain ⟨span, form, parts⟩ := node
  obtain ⟨operator, hform | hform⟩ := h
  · obtain rfl : form = .assignment operator := hform
    exact of_decide_eq_true hcovers
  · obtain rfl : form = .update operator := hform
    exact of_decide_eq_true hcovers

/-- The edits of a tree that lies over its text are settled, and they stand where its parts do unless
something is done about the node itself. -/
theorem settled_and_clear (exported : List String) {node : Node}
    (hlaid : node.laid subject.source = true) (inNamespace : Bool) (shadowed : List String) :
    Settled (IsCall subject node) subject.reference node.extent
        (collect (ownChanges subject) inNamespace node)
        (wraps subject.reference exported shadowed node) ∧
      (Node.isActive node.form = false →
        ∀ edit ∈ collect (ownChanges subject) inNamespace node ++
            wraps subject.reference exported shadowed node,
          ∃ part ∈ node.parts, part.isQuiet = false ∧ IsWithin part.extent edit) := by
  induction node using Node.induction generalizing inNamespace shadowed with
  | step span form parts ih =>
    by_cases hform : (Node.mk span form parts).form = .namespaceDeclaration true
    · obtain rfl : form = .namespaceDeclaration true := hform
      exact ⟨.nil, fun _ edit hedit => absurd hedit List.not_mem_nil⟩
    obtain ⟨-, hcovers, -, hbeside, hlaidParts⟩ := (Node.laid_iff hform).mp hlaid
    obtain ⟨inside, hchanges⟩ := exists_changes_eq subject hform inNamespace
    rw [hchanges, wraps_eq hform, listWraps_eq]
    dsimp only [Node.parts_mk] at *
    generalize Scope.scopeNames (.mk span form parts) ++ shadowed = inner
    have hpart (part : Node) (hpart : part ∈ parts) := ih part hpart (hlaidParts part hpart) inside inner
    have hsilent {part : Node} (hquiet : part.isQuiet = true) :
        collect (ownChanges subject) inside part ++ wraps subject.reference exported inner part = [] :=
      List.append_eq_nil_iff.mpr (edits_of_isQuiet subject exported hquiet inside inner)
    have hparts (whole : Span) (hwhole : ∀ part ∈ parts,
        whole.start ≤ part.lead ∧ part.span.stop ≤ whole.stop) :
        Settled (IsCall subject (.mk span form parts)) subject.reference whole
          (parts.flatMap (collect (ownChanges subject) inside))
          (parts.flatMap (wraps subject.reference exported inner)) := by
      refine Settled.flatMap (fun part hmem => ?_) hwhole ?_
      · exact (hpart part hmem).1.mono (fun _ _ hcall => hcall.inside hform hmem) (Nat.le_refl _)
          (Nat.le_refl _)
      · exact hbeside.imp fun h => h.imp hsilent (.imp_left hsilent)
    have hown : Settled (IsCall subject (.mk span form parts)) subject.reference
        (Node.mk span form parts).extent (ownChanges subject inNamespace (.mk span form parts) ++
          parts.flatMap (collect (ownChanges subject) inside))
        (parts.flatMap (wraps subject.reference exported inner)) := by
      refine settled_own inNamespace hlaid hform ?_ ?_ ?_ hparts
      · exact fun other hdefault hsingle => .exportDefault .self hdefault hsingle
      · intro hquiet
        simp only [List.append_eq_nil_iff, List.flatMap_eq_nil_iff]
        exact ⟨fun part hmem => (edits_of_isQuiet subject exported (hquiet part hmem) inside inner).1,
          fun part hmem => (edits_of_isQuiet subject exported (hquiet part hmem) inside inner).2⟩
      · intro part offset hsingle hclear
        obtain rfl : parts = [part] := hsingle
        rw [Node.parts_mk, List.flatMap_singleton, List.flatMap_singleton]
        have hsettled := hpart part (by simp)
        exact clear_of_parts hclear (fun edit hedit => hsettled.1.isWithin hedit) hsettled.2
    constructor
    · by_cases hwraps : ownWraps subject.reference exported shadowed (.mk span form parts) = []
      · rw [hwraps, List.append_nil]
        exact hown
      · have hwrite := isWrite_of_ownWraps hwraps
        rw [ownWraps_of_ne_nil hwraps]
        rw [extent_of_isWrite hwrite] at hown ⊢
        exact hown.wrap (lt_of_isWrite hwrite hcovers) (.write .self hwrite)
    · intro hpassive edit hedit
      obtain ⟨hnoChanges, hnoWraps⟩ := own_eq_nil subject exported hpassive inNamespace shadowed
      rw [hnoChanges, hnoWraps, List.nil_append, List.append_nil] at hedit
      obtain ⟨part, hmem, hedit⟩ : ∃ part ∈ parts, edit ∈ collect (ownChanges subject) inside part ++
          wraps subject.reference exported inner part := by
        rcases List.mem_append.mp hedit with hedit | hedit <;>
          obtain ⟨part, hmem, hedit⟩ := List.mem_flatMap.mp hedit
        · exact ⟨part, hmem, List.mem_append_left _ hedit⟩
        · exact ⟨part, hmem, List.mem_append_right _ hedit⟩
      refine ⟨part, hmem, ?_, (hpart part hmem).1.isWithin hedit⟩
      by_contra hquiet
      rw [hsilent (by simpa using hquiet)] at hedit
      cases hedit

/-- **Subtrees.** The edits of a tree that lies over its text, put in order, do not overlap and are
nested. -/
theorem settled_node (exported : List String) {node : Node}
    (hlaid : node.laid subject.source = true) (inNamespace : Bool) (shadowed : List String) :
    Settled (IsCall subject node) subject.reference node.extent
      (collect (ownChanges subject) inNamespace node)
      (wraps subject.reference exported shadowed node) :=
  (settled_and_clear exported hlaid inNamespace shadowed).1

end ModuleLinkage.Lowering
