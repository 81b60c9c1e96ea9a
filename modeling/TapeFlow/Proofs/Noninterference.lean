import TapeFlow.Command.Transcript
import TapeFlow.Proofs.Stages

namespace TapeFlow

/-! What a run of the command does not depend on. The order and the number of times in which products
are named do not matter, since the plan of a run only asks which ones are wanted. Being quiet takes the
status lines out of what is printed and changes nothing else, since no action looks at it. -/

/-- The products that a list of names stands for. No names stand for the document and the DOT text. -/
def Product.asked (products : List Product) : List Product :=
  if products = [] then [.json, .dot] else products

namespace Request

def withProducts (request : Request) (products : List Product) : Request :=
  { request with products := products }

def withQuiet (request : Request) (quiet : Bool) : Request :=
  { request with quiet := quiet }

variable {request : Request} {products : List Product}

theorem wants_eq_mem (request : Request) (product : Product) :
    request.wants product = decide (product ∈ Product.asked request.products) := by
  rw [wants, Product.asked]
  cases request.products <;> simp

/-- A plan depends on products only by which ones are wanted. -/
theorem actions_congr (other request : Request) (file : other.file = request.file)
    (output : other.output = request.output) (encoding : other.encoding = request.encoding)
    (wanted : ∀ product, other.wants product = request.wants product)
    (source : Except FileError (List UInt8)) : other.actions source = request.actions source := by
  have directory : other.directoryActions = request.directoryActions := by
    rw [directoryActions, output, directoryActions]
  have path (extension : String) : other.outputPath extension = request.outputPath extension := by
    rw [outputPath, output, file, outputPath]
  have graph (graph : Graph) : other.graphActions graph = request.graphActions graph := by
    simp only [graphActions, jsonActions, dotActions, pngActions, wanted, directory, path]
  have program (program : Text) : other.programActions program = request.programActions program := by
    simp only [programActions, wanted, graph]
  simp only [actions, file, encoding, program]

theorem run_withProducts
    (same : ∀ product, product ∈ Product.asked products ↔ product ∈ Product.asked request.products)
    (renderer : Option Renderer) (tree : FileTree) :
    (request.withProducts products).run renderer tree = request.run renderer tree := by
  have wanted (product : Product) :
      (request.withProducts products).wants product = request.wants product := by
    rw [wants_eq_mem, wants_eq_mem, decide_eq_decide]
    exact same product
  rw [run, actions_congr (request.withProducts products) request rfl rfl rfl wanted]
  rfl

end Request

section Quiet

variable {renderer : Option Renderer} {tree : FileTree} {actions : List Action} {output : Output}

def Output.isStatus : Output → Bool
  | .status _ => true
  | .content _ => false
  | .foreign _ => false

/-- An outcome with no status lines printed. -/
def Outcome.withoutStatus (outcome : Outcome) : Outcome :=
  { outcome with printed := outcome.printed.filter (!·.isStatus) }

theorem Action.output_quiet (action : Action) (renderer : Option Renderer) :
    action.output true renderer = (action.output false renderer).filter (!·.isStatus) := by
  cases action with
  | render path dot =>
      rw [output, output]
      cases startRenderer renderer path dot <;> rfl
  | status | print | createDirectories | write | fail => rfl

/-- Step by step, a quiet run does the same and prints what is left without status lines. -/
theorem performAll_quiet (renderer : Option Renderer) (tree : FileTree) (actions : List Action) :
    performAll true renderer tree actions =
      (performAll false renderer tree actions).withoutStatus := by
  induction actions generalizing tree with
  | nil => rfl
  | cons action actions ih =>
      rw [performAll, performAll, action.output_quiet renderer]
      rcases action.perform renderer tree with ⟨after, _ | error⟩
      · simp only [ih, Outcome.withoutStatus, List.filter_append]
      · rfl

theorem exists_action_of_mem_printed {quiet : Bool}
    (member : output ∈ (performAll quiet renderer tree actions).printed) :
    ∃ action ∈ actions, output ∈ action.output quiet renderer := by
  induction actions generalizing tree with
  | nil => cases member
  | cons action actions ih =>
      rw [performAll] at member
      rcases performed : action.perform renderer tree with ⟨after, _ | error⟩
      · rw [performed] at member
        rcases List.mem_append.mp member with here | later
        · exact ⟨action, List.mem_cons_self, here⟩
        · obtain ⟨action, among, printed⟩ := ih later
          exact ⟨action, List.mem_cons_of_mem _ among, printed⟩
      · rw [performed] at member
        exact ⟨action, List.mem_cons_self, member⟩

theorem Request.run_withQuiet (request : Request) (quiet : Bool) (renderer : Option Renderer)
    (tree : FileTree) : (request.withQuiet quiet).run renderer tree =
      performAll quiet renderer tree (request.actions (tree.read request.file)) :=
  congrArg (performAll quiet renderer tree)
    (actions_congr (request.withQuiet quiet) request rfl rfl rfl (fun _ => rfl) _)

theorem Request.run_quiet (request : Request) (renderer : Option Renderer) (tree : FileTree) :
    (request.withQuiet true).run renderer tree =
      ((request.withQuiet false).run renderer tree).withoutStatus := by
  rw [run_withQuiet, run_withQuiet, performAll_quiet]

end Quiet

section Announcements

/-- The words that status lines begin with. -/
def statusWords : List Text :=
  ["Running".toList, "Starting".toList, "Finished".toList, "Wrote".toList, "Rendered".toList]

/-- A text that begins with one of the words of status lines. -/
def Text.Announces (text : Text) : Prop :=
  ∃ word ∈ statusWords, word ++ [' '] <+: text

namespace Request

variable {request : Request} {line : List Span}

theorem announces_of_mem_graphActions {graph : Graph}
    (member : .status line ∈ request.graphActions graph) (elapsed : Text) :
    Text.Announces (line.flatMap (Span.text false elapsed)) := by
  simp only [graphActions, directoryActions, jsonActions, dotActions, pngActions, wrote,
    List.mem_append, List.mem_cons, List.mem_ite_nil_right, List.not_mem_nil, Option.mem_toList,
    Option.map_eq_some_iff, Action.status.injEq, reduceCtorEq, and_false, exists_false, or_false,
    false_or] at member
  rcases member with ((rfl | ⟨_, rfl⟩) | ⟨_, rfl⟩) | ⟨_, rfl | rfl⟩
  · exact ⟨"Finished".toList, by simp [statusWords], _, rfl⟩
  · exact ⟨"Wrote".toList, by simp [statusWords], _, rfl⟩
  · exact ⟨"Wrote".toList, by simp [statusWords], _, rfl⟩
  · exact ⟨"Starting".toList, by simp [statusWords], _, rfl⟩
  · exact ⟨"Rendered".toList, by simp [statusWords], _, rfl⟩

theorem announces_of_mem_programActions {program : Text}
    (member : .status line ∈ request.programActions program) (elapsed : Text) :
    Text.Announces (line.flatMap (Span.text false elapsed)) := by
  simp only [programActions, List.mem_append, List.mem_cons, List.mem_ite_nil_right,
    List.not_mem_nil, Action.status.injEq, reduceCtorEq, and_false, or_false] at member
  rcases member with (rfl | rfl) | rfl | member
  · exact ⟨"Starting".toList, by simp [statusWords], _, rfl⟩
  · exact ⟨"Finished".toList, by simp [statusWords], _, rfl⟩
  · exact ⟨"Starting".toList, by simp [statusWords], _, rfl⟩
  · cases built : build (tokenize program) with
    | error reason => simp [built] at member
    | ok graph =>
        rw [built] at member
        exact announces_of_mem_graphActions member elapsed

theorem announces_of_mem_actions {source : Except FileError (List UInt8)}
    (member : .status line ∈ request.actions source) (elapsed : Text) :
    Text.Announces (line.flatMap (Span.text false elapsed)) := by
  rcases List.mem_cons.mp member with same | member
  · cases same
    exact ⟨"Running".toList, by simp [statusWords], _, rfl⟩
  · cases source with
    | error reason => simp at member
    | ok octets => exact announces_of_mem_programActions member elapsed

theorem announces_of_mem_printed {renderer : Option Renderer} {tree : FileTree}
    (member : .status line ∈ (request.run renderer tree).printed) (elapsed : Text) :
    Text.Announces (statusLine false elapsed line) := by
  obtain ⟨action, planned, printed⟩ := exists_action_of_mem_printed member
  obtain rfl : action = .status line := by
    cases action with
    | status other =>
        rw [Action.output] at printed
        split at printed
        · cases printed
        · cases List.mem_singleton.mp printed
          rfl
    | render path dot =>
        rw [Action.output] at printed
        split at printed <;> simp at printed
    | print | createDirectories | write | fail => simp [Action.output] at printed
  obtain ⟨word, known, starts⟩ := announces_of_mem_actions planned elapsed
  exact ⟨word, known, starts.trans (List.prefix_append _ _)⟩

end Request

end Announcements

/-- What the renderer does in a run: it is started in a stage that succeeds, or in the one behind. -/
def Job.started (job : Job) (done : List Stage) : List Rendering :=
  (job.request.stages.take (done.length + 1)).flatMap job.renderings

theorem Outcome.standardOutput_of_printed {outcome : Outcome} {texts : List Text}
    {started : List Rendering}
    (printed : outcome.printed = texts.map .content ++ started.map (.foreign ·.output))
    (colour : Bool) (elapsed : Text) :
    outcome.standardOutput colour elapsed =
      Utf8.encode (texts.flatMap (· ++ ['\n'])) ++ started.flatMap (·.output) := by
  simp only [standardOutput, printed, List.flatMap_append, List.flatMap_map, Output.octets,
    Utf8.encode, List.flatMap_assoc]

theorem Request.exists_started {request : Request} {tree : FileTree} {octets : List UInt8}
    (renderer : Option Renderer) (held : tree.read request.file = .ok octets) :
    ∃ started : List Rendering,
      ((request.withQuiet true).run renderer tree).printed =
        (request.contents (request.encoding.decode octets)).map .content ++
          started.map (.foreign ·.output) ∧
      ((request.withQuiet true).run renderer tree).complaints = started.flatMap (·.complaints) ∧
      (∀ reason, compile (request.encoding.decode octets) = .error reason → started = []) ∧
      ∀ graph, compile (request.encoding.decode octets) = .ok graph →
        ∃ done, Job.Ends ⟨request, renderer, graph⟩ tree request.stages done
            ((request.withQuiet true).run renderer tree).effect ∧
          started = Job.started ⟨request, renderer, graph⟩ done := by
  rw [run_withQuiet, held]
  cases compiled : compile (request.encoding.decode octets) with
  | error reason =>
      rw [performAll_uncompiled compiled]
      refine ⟨[], rfl, rfl, fun _ _ => rfl, ?_⟩
      intro graph same
      cases same
  | ok graph =>
      obtain ⟨done, ends, printed, complaints⟩ :=
        Job.ends_of_actions ⟨request, renderer, graph⟩ tree Stage.order
      rw [performAll_compiled compiled]
      refine ⟨Job.started ⟨request, renderer, graph⟩ done, congrArg _ printed, complaints, ?_, ?_⟩
      · intro reason failed
        cases failed
      · intro other same
        cases same
        exact ⟨done, ends, rfl⟩

/-- What a run shows: its exit code, both streams, with one text for all times, and the tree. -/
def Outcome.observed (outcome : Outcome) (colour : Bool) (elapsed : Text) :
    Nat × List UInt8 × List UInt8 × FileTree :=
  (outcome.exitCode, outcome.standardOutput colour elapsed, outcome.standardError colour,
    outcome.tree)

/-- In which order and how often products are named makes no difference to a run. Being quiet only
takes out the lines that begin with the words for a status, wherever the run ends, so that the tokens and
the graph are left, in this order, if they are asked for and there are any, and what the renderer prints
behind them, if the run gets to it. -/
theorem run_ignores_order_and_quiet (request : Request) (renderer : Option Renderer)
    (tree : FileTree) (colour : Bool) (elapsed : Text) :
    (∀ products : List Product,
      (∀ product, product ∈ Product.asked products ↔ product ∈ Product.asked request.products) →
      ((request.withProducts products).run renderer tree).observed colour elapsed =
        (request.run renderer tree).observed colour elapsed) ∧
    ∀ loud quiet : Outcome, (request.withQuiet false).run renderer tree = loud →
      (request.withQuiet true).run renderer tree = quiet →
      (quiet.exitCode = loud.exitCode ∧ quiet.standardError colour = loud.standardError colour ∧
        quiet.tree = loud.tree) ∧
      (loud.standardOutput colour elapsed = loud.printed.flatMap (Output.octets colour elapsed) ∧
        quiet.standardOutput colour elapsed =
          (loud.printed.filter (!·.isStatus)).flatMap (Output.octets colour elapsed)) ∧
      (∀ line, .status line ∈ loud.printed →
        (Output.status line).octets colour elapsed = Utf8.encode (statusLine colour elapsed line) ∧
          Text.Announces (statusLine false elapsed line)) ∧
      (∀ reason, tree.read request.file = .error reason →
        quiet.printed = [] ∧ quiet.standardOutput colour elapsed = []) ∧
      ∀ octets, tree.read request.file = .ok octets →
        ∃ started : List Rendering,
          quiet.printed = (request.contents (request.encoding.decode octets)).map .content ++
            started.map (.foreign ·.output) ∧
          quiet.standardOutput colour elapsed =
            Utf8.encode ((request.contents (request.encoding.decode octets)).flatMap
              (· ++ ['\n'])) ++ started.flatMap (·.output) ∧
          quiet.standardError colour = started.flatMap (·.complaints) ++
            Utf8.encode ((quiet.error.map (RunError.text colour)).getD []) ∧
          (∀ reason, compile (request.encoding.decode octets) = .error reason → started = []) ∧
          ∀ graph, compile (request.encoding.decode octets) = .ok graph →
            ∃ done, Job.Ends ⟨request, renderer, graph⟩ tree request.stages done
                (quiet.tree, quiet.error) ∧
              started = Job.started ⟨request, renderer, graph⟩ done := by
  refine ⟨?_, ?_⟩
  · intro products same
    rw [Request.run_withProducts same]
  · rintro loud quiet rfl rfl
    have silenced := request.run_quiet renderer tree
    refine ⟨by rw [silenced]; exact ⟨rfl, rfl, rfl⟩, ⟨rfl, by rw [silenced]; rfl⟩, ?_, ?_, ?_⟩
    · intro line member
      exact ⟨rfl, Request.announces_of_mem_printed member elapsed⟩
    · intro reason unread
      rw [Request.run_withQuiet, unread]
      exact ⟨rfl, rfl⟩
    · intro octets held
      obtain ⟨started, printed, complaints, uncompiled, compiled⟩ :=
        Request.exists_started renderer held
      refine ⟨started, printed, Outcome.standardOutput_of_printed printed colour elapsed, ?_,
        uncompiled, compiled⟩
      rw [Outcome.standardError, complaints]

/-- Tokens are printed by a quiet run that fails later, in whatever order they are asked for, and so is
what a renderer prints that does not take the whole text. -/
theorem run_ignores_order_and_quiet_of_broken_pipe :
    (∀ product, product ∈ Product.asked [.png, .tokens, .png] ↔
      product ∈ Product.asked [.tokens, .png]) ∧
    (Request.run ⟨"x".toList, [.png, .tokens, .png], none, .utf8, false⟩
        (some fun _ => ⟨false, none, [0x2A], [0x21], .code 0⟩)
        ⟨[], [(["x".toList], .file [0x44, 0x20, 0x23])]⟩).observed false "t".toList =
      (Request.run ⟨"x".toList, [.tokens, .png], none, .utf8, false⟩
        (some fun _ => ⟨false, none, [0x2A], [0x21], .code 0⟩)
        ⟨[], [(["x".toList], .file [0x44, 0x20, 0x23])]⟩).observed false "t".toList ∧
    (Request.run ⟨"x".toList, [.tokens, .png], none, .utf8, true⟩
        (some fun _ => ⟨false, none, [0x2A], [0x21], .code 0⟩)
        ⟨[], [(["x".toList], .file [0x44, 0x20, 0x23])]⟩).standardOutput false "t".toList =
      Utf8.encode "D #\n*".toList ∧
    (Request.run ⟨"x".toList, [.tokens, .png], none, .utf8, true⟩
        (some fun _ => ⟨false, none, [0x2A], [0x21], .code 0⟩)
        ⟨[], [(["x".toList], .file [0x44, 0x20, 0x23])]⟩).standardError false =
      Utf8.encode "!Error: Export error: IO Error\n".toList := by
  let request : Request := ⟨"x".toList, [.tokens, .png], none, .utf8, false⟩
  let renderer : Option Renderer := some fun _ => ⟨false, none, [0x2A], [0x21], .code 0⟩
  let tree : FileTree := ⟨[], [(["x".toList], .file [0x44, 0x20, 0x23])]⟩
  have same : ∀ product, product ∈ Product.asked [.png, .tokens, .png] ↔
      product ∈ Product.asked [.tokens, .png] := by
    intro product
    cases product <;> decide
  have held : tree.read request.file = .ok [0x44, 0x20, 0x23] := rfl
  have tokens : tokenize (request.encoding.decode [0x44, 0x20, 0x23]) = [.moveRight, .endOfFile] := by
    decide +kernel
  have built : build [.moveRight, .endOfFile] = .ok _ := rfl
  have contents : request.contents (request.encoding.decode [0x44, 0x20, 0x23]) =
      ["D #".toList] := by
    decide +kernel
  obtain ⟨order, quiet⟩ := run_ignores_order_and_quiet request renderer tree false "t".toList
  obtain ⟨_, _, _, _, read⟩ := quiet _ _ rfl rfl
  obtain ⟨started, _, output, errors, _, compiled⟩ := read _ held
  obtain ⟨done, _, begun⟩ := compiled _ ((congrArg build tokens).trans built)
  have asked : request.stages = [.png] := by decide +kernel
  have drawn (dot : Text) : startRenderer renderer (request.outputPath "png") dot =
      .ok ⟨false, none, [0x2A], [0x21], .code 0⟩ :=
    startRenderer_eq_ok_iff.mpr ⟨by decide +kernel, _, rfl, rfl⟩
  have started : started = [⟨false, none, [0x2A], [0x21], .code 0⟩] := by
    rw [begun, Job.started, asked, List.take_succ_cons, List.take_nil, List.flatMap_singleton,
      Job.renderings, drawn]
    rfl
  rw [contents, started] at output
  rw [started] at errors
  refine ⟨same, order _ same, output.trans (by decide), errors.trans ?_⟩
  decide +kernel

end TapeFlow
