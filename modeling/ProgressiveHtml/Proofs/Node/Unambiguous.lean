import ProgressiveHtml.Proofs.Markup.Unambiguous
import ProgressiveHtml.Proofs.Node.Parts
import ProgressiveHtml.Proofs.Rendering.Coming
import ProgressiveHtml.Waiting

namespace ProgressiveHtml

/-!
# Nodes — markup that can be read in one way only

Trees of elements and text are written so that the text tells the trees: whatever the content is, it
cannot pass for a tag, an attribute or the end of an element.  Where siblings end is told by what is
behind them, the end of all text or a closing tag; this is why the trees are compared with that.

* `Node.Normal` — trees of elements and text in normal form;
* `Node.Normal.poll` — such a tree is rendered at once, to its text;
* `Node.Normal.inj`, `Node.NormalAll.inj` — what a text tells of the tree, and of the siblings, that it
  begins with;
* `Node.render_injective` — different siblings are rendered to different markup.
-/

/-- Whether a tree is text. -/
def Node.isText : Node → Bool
  | .text _ => true
  | _ => false

mutual

/-- Trees of elements and text in normal form: tags and names of attributes are names, void tags stand
    alone, no text is empty, and no text stands beside another. -/
def Node.Normal : Node → Prop
  | .text plain => plain ≠ ""
  | .element tag attributes children =>
    Markup.IsName tag ∧ (∀ a ∈ attributes, Markup.IsName a.1) ∧
      (Markup.isVoid tag → children = []) ∧ Node.NormalAll children
  | _ => False
termination_by structural node => node

/-- Siblings in normal form. -/
def Node.NormalAll : List Node → Prop
  | [] => True
  | node :: rest =>
    node.Normal ∧ (node.isText → ∀ next ∈ rest.head?, next.isText = false) ∧ Node.NormalAll rest
termination_by structural nodes => nodes

end

/-- A rendering that is done at once is not waited for. -/
theorem Rendering.runWithin_of_done {r : Rendering} {text : String} {w after : EventLoop}
    (polled : r.poll w = (.done text, after)) (turns patience : Nat) :
    r.runWithin turns patience w = (.ok (some (.ok text)), after) := by
  have answer : Rendering.awaitable.poll r w = (.ready (.ok text) (.done text), after) := by
    simp only [awaitable, polled]
  rw [runWithin, EventLoop.wait, EventLoop.waitRounds, answer]

theorem Rendering.runTimes_of_done {r : Rendering} {text : String} {w after : EventLoop}
    (polled : r.poll w = (.done text, after)) (turns patience : Nat) :
    r.runTimes turns patience 1 w = (.ok [⟨after.now, some (.ok text)⟩], after) := by
  simp only [runTimes, runWithin_of_done polled]
  rfl

namespace Node

variable {node node' : Node} {nodes nodes' : List Node} {env : Environment} {first : Nat}
  {w : EventLoop}

/-! ### Rendering -/

mutual

/-- A tree of elements and text is rendered at once. -/
theorem Normal.poll (node : Node) (normal : node.Normal) (env : Environment) (first : Nat)
    (w : EventLoop) : (node.rendering env first).poll w = (.done (node.inlined {}), w) := by
  cases node with
  | text plain => rfl
  | element tag attributes children =>
    have polled := NormalAll.poll children normal.2.2.2 env first
      (Rendering.isPrompt (Node.renderings children env first).length) true w
    rw [rendering, Rendering.poll, polled]
    simp only [Rendering.verdict, Rendering.verdictFrom_there, if_true]
    rfl
  | _ => exact normal.elim
termination_by structural node

theorem NormalAll.poll (nodes : List Node) (normal : NormalAll nodes) (env : Environment) (first : Nat)
    (prompt settled : Bool) (w : EventLoop) :
    Rendering.pollAll prompt settled (renderings nodes env first) w =
      ((inlinedAll nodes {}).map .done, w) := by
  cases nodes with
  | nil => rfl
  | cons node rest =>
    obtain ⟨here, -, later⟩ := normal
    have polled := Normal.poll node here env first w
    have others := NormalAll.poll rest later env (first + node.cells) prompt (settled && true) w
    rw [renderings, Rendering.pollAll, polled]
    simp only [Rendering.endsGroup, Rendering.isDone, Bool.false_eq_true, if_false, others]
    rfl
termination_by structural nodes

end

mutual

/-- A tree of elements and text has nothing that can be used only once. -/
theorem Normal.cells (node : Node) (normal : node.Normal) : node.cells = 0 := by
  cases node with
  | text plain => rfl
  | element tag attributes children => exact NormalAll.cells children normal.2.2.2
  | _ => exact normal.elim
termination_by structural node

theorem NormalAll.cells (nodes : List Node) (normal : NormalAll nodes) : cellsOfAll nodes = 0 := by
  cases nodes with
  | nil => rfl
  | cons node rest => rw [cellsOfAll, Normal.cells node normal.1, NormalAll.cells rest normal.2.2]
termination_by structural nodes

end

/-- Siblings of elements and text are rendered at once, to their texts one after the other. -/
theorem NormalAll.render (normal : NormalAll nodes) (env : Environment) (w : EventLoop) :
    (Node.group nodes).render env 1 w =
      (.ok [⟨w.now, some (.ok (String.join (inlinedAll nodes {})))⟩], w) := by
  have polled (w : EventLoop) : ((Node.group nodes).rendering env w.cells).poll w =
      (.done (String.join (inlinedAll nodes {})), w) := by
    have all := NormalAll.poll nodes normal env w.cells
      (Rendering.isPrompt (Node.renderings nodes env w.cells).length) true w
    rw [rendering, Rendering.group, Rendering.poll, all]
    simp only [Rendering.verdict, Rendering.verdictFrom_there, if_true]
    rfl
  have same : { w with cells := w.cells + (Node.group nodes).cells } = w := by
    rw [show (Node.group nodes).cells = 0 from NormalAll.cells nodes normal, Nat.add_zero]
  rw [Node.render, same, Rendering.runTimes_of_done (polled w)]

/-! ### Reading -/

/-- The characters of siblings. -/
def chars (nodes : List Node) : List Char := (String.join (inlinedAll nodes {})).toList

@[simp] theorem chars_nil : chars [] = [] := rfl

@[simp] theorem chars_cons (node : Node) (rest : List Node) :
    chars (node :: rest) = (node.inlined {}).toList ++ chars rest := by
  simp [chars, inlinedAll, String.join_cons]

/-- What can stand behind the last of some siblings: nothing more, or a closing tag. -/
def Closes (after : List Char) : Prop := after = [] ∨ ∃ more, after = '<' :: '/' :: more

theorem closes_closeTag (tag : String) (after : List Char) :
    Closes ((Markup.closeTag tag).toList ++ after) :=
  .inr ⟨tag.toList ++ '>' :: after, by simp [Markup.closeTag]⟩

/-- The text of an element in normal form: its children are closed unless its tag stands alone. -/
theorem element_toList {tag : String} {children : List Node} (attributes : List Markup.Attribute)
    (alone : Markup.isVoid tag → children = []) :
    ((Node.element tag attributes children).inlined {}).toList =
      (Markup.openTag tag attributes).toList ++
        if Markup.isVoid tag then [] else chars children ++ (Markup.closeTag tag).toList := by
  rw [inlined, Markup.element]
  cases isVoid : Markup.isVoid tag with
  | false => simp [chars]
  | true =>
    rw [alone isVoid]
    simp [inlinedAll]

/-- The text of a tree in normal form does not begin like something that closes its siblings: text
    begins with no `<`, and behind that of an element there is a name. -/
theorem Normal.head (normal : node.Normal) : ∃ c rest, (node.inlined {}).toList = c :: rest ∧
    (if node.isText then c ≠ '<' else c = '<' ∧ rest.head? ≠ some '/' ∧ rest ≠ []) := by
  cases node with
  | text plain =>
    obtain ⟨c, rest, written, other⟩ := Markup.escape_head normal
    exact ⟨c, rest, written, other⟩
  | element tag attributes children =>
    obtain ⟨name, -, alone, -⟩ := normal
    obtain ⟨c, rest, written, isName⟩ := name.head
    have other : c ≠ '/' := fun isSlash => Markup.not_isNameChar (c := '/') (by simp) (isSlash ▸ isName)
    rw [element_toList attributes alone, Markup.openTag_toList, written]
    exact ⟨'<', _, rfl, rfl, by simpa using other, by simp⟩
  | _ => exact normal.elim

theorem Normal.not_closes (normal : node.Normal) (after : List Char) :
    ¬ Closes ((node.inlined {}).toList ++ after) := by
  obtain ⟨c, rest, written, begins⟩ := normal.head
  rw [written]
  rintro (nothing | ⟨more, same⟩)
  · cases nothing
  · obtain ⟨rfl, later⟩ := List.cons.inj same
    cases rest with
    | nil => cases isText : node.isText <;> simp [isText] at begins
    | cons d rest =>
      have isSlash : d = '/' := (List.cons.inj later).1
      cases isText : node.isText <;> simp [isText, isSlash] at begins

/-- What stands behind text that has no text beside it begins with `<`. -/
theorem NormalAll.head (normal : NormalAll nodes)
    (apart : ∀ next ∈ nodes.head?, next.isText = false) {after : List Char} (closes : Closes after) :
    ∀ c ∈ (chars nodes ++ after).head?, ¬ c ≠ '<' := by
  cases nodes with
  | nil =>
    obtain rfl | ⟨more, rfl⟩ := closes <;> simp
  | cons next rest =>
    obtain ⟨c, behind, written, begins⟩ := normal.1.head
    rw [apart next rfl, if_neg Bool.false_ne_true] at begins
    simp [written, begins.1]

mutual

/-- A text tells the tree that it begins with, if what is behind the tree does not begin like more of
    its text. -/
theorem Normal.inj (node node' : Node) (normal : node.Normal) (normal' : node'.Normal)
    {after after' : List Char} (stop : node.isText → ∀ c ∈ after.head?, ¬ c ≠ '<')
    (stop' : node'.isText → ∀ c ∈ after'.head?, ¬ c ≠ '<')
    (same : (node.inlined {}).toList ++ after = (node'.inlined {}).toList ++ after') :
    node = node' ∧ after = after' := by
  obtain ⟨c, rest, written, begins⟩ := normal.head
  obtain ⟨c', rest', written', begins'⟩ := normal'.head
  -- The first character tells a text from an element.
  have head : c = c' := by
    rw [written, written'] at same
    exact (List.cons.inj same).1
  cases node with
  | text plain =>
    cases node' with
    | text plain' =>
      have inside (text : String) : ∀ c ∈ (Markup.escape text).toList, c ≠ '<' := by
        intro c here isOpening
        rw [Markup.escape_toList] at here
        exact Markup.notMem_escapeChars (c := '<') (by simp) text.toList (isOpening ▸ here)
      obtain ⟨escaped, behind⟩ := Markup.append_inj_of_stop (inside plain) (inside plain') (stop rfl)
        (stop' rfl) same
      exact ⟨congrArg text (Markup.escape_injective (String.toList_inj.1 escaped)), behind⟩
    | element => exact absurd (head.trans begins'.1) begins
    | _ => exact normal'.elim
  | element tag attributes children =>
    cases node' with
    | text => exact absurd (head.symm.trans begins.1) begins'
    | element tag' attributes' children' =>
      obtain ⟨name, names, alone, inner⟩ := normal
      obtain ⟨name', names', alone', inner'⟩ := normal'
      rw [element_toList attributes alone, element_toList attributes' alone', List.append_assoc,
        List.append_assoc] at same
      obtain ⟨rfl, rfl, behind⟩ := Markup.openTag_inj name name' names names' same
      -- An element of a void tag has neither content nor closing tag.
      cases isVoid : Markup.isVoid tag with
      | true =>
        rw [isVoid] at behind
        rw [alone isVoid, alone' isVoid]
        exact ⟨rfl, behind⟩
      | false =>
        simp only [isVoid, Bool.false_eq_true, if_false, List.append_assoc] at behind
        obtain ⟨rfl, closed⟩ := NormalAll.inj children children' inner inner' (closes_closeTag tag after)
          (closes_closeTag tag after') behind
        exact ⟨rfl, List.append_cancel_left closed⟩
    | _ => exact normal'.elim
  | _ => exact normal.elim
termination_by structural node

/-- A text tells the siblings that it begins with, if something closes them. -/
theorem NormalAll.inj (nodes nodes' : List Node) (normal : NormalAll nodes)
    (normal' : NormalAll nodes') {after after' : List Char} (closes : Closes after)
    (closes' : Closes after') (same : chars nodes ++ after = chars nodes' ++ after') :
    nodes = nodes' ∧ after = after' := by
  cases nodes with
  | nil =>
    cases nodes' with
    | nil => exact ⟨rfl, same⟩
    | cons node' rest' =>
      rw [chars_nil, List.nil_append, chars_cons, List.append_assoc] at same
      -- No sibling begins like what closes the siblings.
      exact absurd (same ▸ closes) (normal'.1.not_closes _)
  | cons node rest =>
    cases nodes' with
    | nil =>
      rw [chars_nil, List.nil_append, chars_cons, List.append_assoc] at same
      exact absurd (same ▸ closes') (normal.1.not_closes _)
    | cons node' rest' =>
      obtain ⟨here, apart, later⟩ := normal
      obtain ⟨here', apart', later'⟩ := normal'
      rw [chars_cons, chars_cons, List.append_assoc, List.append_assoc] at same
      obtain ⟨rfl, behind⟩ := Normal.inj node node' here here'
        (fun isText => later.head (apart isText) closes)
        (fun isText => later'.head (apart' isText) closes') same
      obtain ⟨rfl, last⟩ := NormalAll.inj rest rest' later later' closes closes' behind
      exact ⟨rfl, last⟩
termination_by structural nodes

end

/-- Markup cannot be forged by content: siblings of elements and text in normal form are rendered at
    once, wherever they stand, and to the same markup only if they are the same, with the same tags,
    attributes in order, values, texts and nesting. -/
theorem render_injective (normal : NormalAll nodes) (normal' : NormalAll nodes') :
    ∃ markup markup' : String,
      (∀ env w, (Node.group nodes).render env 1 w = (.ok [⟨w.now, some (.ok markup)⟩], w)) ∧
      (∀ env w, (Node.group nodes').render env 1 w = (.ok [⟨w.now, some (.ok markup')⟩], w)) ∧
      (markup = markup' ↔ nodes = nodes') := by
  refine ⟨_, _, normal.render, normal'.render, fun same => ?_, fun same => by rw [same]⟩
  have chars : chars nodes ++ [] = chars nodes' ++ [] := by
    rw [List.append_nil, List.append_nil, Node.chars, Node.chars, same]
  exact (NormalAll.inj nodes nodes' normal normal' (.inl rfl) (.inl rfl) chars).1

/-- A value that tries to end its attribute and a text that tries to end its element, and the trees for
    which they would like to pass. -/
theorem render_injective_of_forgery :
    let forged : List Node := [.element "p" [("title", "\" id=\"x")] [.text "</p><br>&lt;"], .text "&"]
    let real : List Node :=
      [.element "p" [("title", ""), ("id", "x")] [], .element "br" [] [], .text "<&amp;"]
    NormalAll forged ∧ NormalAll real ∧ ∃ markup markup' : String,
      (∀ env w, (Node.group forged).render env 1 w = (.ok [⟨w.now, some (.ok markup)⟩], w)) ∧
      (∀ env w, (Node.group real).render env 1 w = (.ok [⟨w.now, some (.ok markup')⟩], w)) ∧
      markup ≠ markup' := by
  intro forged real
  have nonempty : "</p><br>&lt;" ≠ "" ∧ "&" ≠ "" ∧ "<&amp;" ≠ "" := by decide
  have p : Markup.IsName "p" ∧ ¬ Markup.isVoid "p" := by decide +kernel
  have br : Markup.IsName "br" := by decide +kernel
  have names : Markup.IsName "title" ∧ Markup.IsName "id" := by decide +kernel
  have normal : NormalAll forged :=
    ⟨⟨p.1, by simp [names], fun isVoid => absurd isVoid p.2, nonempty.1, by simp, trivial⟩, nofun,
      nonempty.2.1, by simp, trivial⟩
  have normal' : NormalAll real :=
    ⟨⟨p.1, by simp [names], fun isVoid => absurd isVoid p.2, trivial⟩, nofun,
      ⟨br, by simp, fun _ => rfl, trivial⟩, nofun, nonempty.2.2, by simp, trivial⟩
  obtain ⟨markup, markup', isMarkup, isMarkup', same⟩ := render_injective normal normal'
  refine ⟨normal, normal', markup, markup', isMarkup, isMarkup', fun equal => ?_⟩
  -- If the markup were the same, so would be the attributes of the two paragraphs.
  have attributes : [("title", "\" id=\"x")] = [("title", ""), ("id", "x")] := by
    injection (List.cons.inj (same.1 equal)).1
  simp at attributes

end Node

end ProgressiveHtml
