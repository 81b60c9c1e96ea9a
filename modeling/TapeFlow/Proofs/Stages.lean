import TapeFlow.Command.Run
import TapeFlow.Proofs.Arguments
import TapeFlow.Proofs.Decoding
import TapeFlow.Proofs.FileTrees
import TapeFlow.Proofs.RoundTrip

namespace TapeFlow

/-! A run of the command, once it has a graph, goes through stages in a fixed order up to the first
that fails. The list of actions is taken apart into stages, and what a stage leaves alone says which
files are still there when the run ends. -/

/-- What a run does with a graph, besides printing. -/
inductive Stage where
  | directories
  | json
  | dot
  | png
  deriving DecidableEq

namespace Stage

def order : List Stage :=
  [.directories, .json, .dot, .png]

/-- The extension of the file that a stage makes. -/
def extension : Stage → Option String
  | .directories => none
  | .json => some "json"
  | .dot => some "dot"
  | .png => some "png"

def product? : Stage → Option Product
  | .directories => none
  | .json => some .json
  | .dot => some .dot
  | .png => some .png

theorem extension_injective : Function.Injective extension := by
  intro stage other
  cases stage <;> cases other <;> decide

/-- An extension is a name, and too long for the last part of `..`. -/
theorem extension_plain {stage : Stage} {suffix : String} (mine : stage.extension = some suffix) :
    '/' ∉ suffix.toList ∧ 2 ≤ suffix.toList.length := by
  cases stage with
  | directories => cases mine
  | json | dot | png =>
      cases mine
      decide

end Stage

namespace Request

/-- Whether a stage is asked for: directories by an output, files by name, and documents and DOT
texts also by asking for nothing. -/
def asks (request : Request) : Stage → Bool
  | .directories => request.output.isSome
  | .json => request.products = [] ∨ .json ∈ request.products
  | .dot => request.products = [] ∨ .dot ∈ request.products
  | .png => .png ∈ request.products

def stages (request : Request) : List Stage :=
  Stage.order.filter request.asks

theorem nodup_stages (request : Request) : request.stages.Nodup :=
  List.Pairwise.filter _ (show Stage.order.Nodup by decide)

def directory (request : Request) : Text :=
  request.output.getD ['.']

def productName (request : Request) (extension : String) : Text :=
  Path.stem request.file ++ '.' :: extension.toList

variable {request : Request} {stage : Stage} {suffix : String}

theorem slash_not_mem_productName (mine : stage.extension = some suffix) :
    '/' ∉ request.productName suffix := by
  intro member
  rw [productName, List.mem_append, List.mem_cons] at member
  rcases member with front | point | back
  · exact Path.slash_not_mem_stem request.file front
  · cases point
  · exact (Stage.extension_plain mine).1 back

theorem follow_productName (mine : stage.extension = some suffix) (location : Location) :
    FileTree.follow location (request.productName suffix) =
      location ++ [request.productName suffix] := by
  have long : 3 ≤ (request.productName suffix).length := by
    have back := (Stage.extension_plain mine).2
    rw [productName, List.length_append, List.length_cons]
    omega
  apply FileTree.follow_name
  · rw [Path.stays, Bool.or_eq_false_iff, decide_eq_false_iff_not, decide_eq_false_iff_not]
    constructor
    · intro same
      rw [same] at long
      cases long
    · intro same
      simp [same] at long
  · intro same
    simp [same, Path.parent] at long

/-- The file of a product lies in the output directory. -/
theorem locate_outputPath {tree : FileTree} {place : Location} (named : request.output ≠ some [])
    (mine : stage.extension = some suffix)
    (located : tree.locate (request.outputPath suffix) = .ok place) :
    ∃ inside, tree.locate request.directory = .ok inside ∧
      place = inside ++ [request.productName suffix] := by
  have nonempty : request.directory ≠ [] := by
    rw [directory]
    cases given : request.output with
    | none => simp
    | some path =>
        intro empty
        exact named (by rw [given]; exact congrArg some empty)
  obtain ⟨inside, above, _, reached⟩ :=
    FileTree.locate_join nonempty (slash_not_mem_productName mine) located
  exact ⟨inside, above, reached.trans (follow_productName mine inside)⟩

end Request

/-- What a run makes the files of its stages from. -/
structure Job where
  request : Request
  renderer : Option Renderer
  graph : Graph

namespace Job

/-- The end of a stage that writes a file. -/
def written (tree : FileTree) : Except ExportError FileTree → FileTree × Option RunError
  | .ok after => (after, none)
  | .error reason => (tree, some (.exporting reason))

def perform (job : Job) (tree : FileTree) : Stage → FileTree × Option RunError
  | .directories =>
    let (after, error) := tree.createDirectories job.request.directory
    (after, error.map .file)
  | .json => written tree (tree.writeJson (job.request.outputPath "json") job.graph)
  | .dot => written tree (tree.writeDot (job.request.outputPath "dot") job.graph)
  | .png =>
    let (after, error) := tree.render job.renderer (job.request.outputPath "png") job.graph.dot
    (after, error.map .exporting)

/-- Stages one after the other up to the first that fails: those that succeed, the tree after the
last that is begun, and why it fails if it does. -/
inductive Ends (job : Job) :
    FileTree → List Stage → List Stage → FileTree × Option RunError → Prop
  | nil (tree : FileTree) : Ends job tree [] [] (tree, none)
  | fail {tree after : FileTree} {stage : Stage} {reason : RunError} (rest : List Stage)
      (failed : job.perform tree stage = (after, some reason)) :
      Ends job tree (stage :: rest) [] (after, some reason)
  | step {tree middle : FileTree} {stage : Stage} {rest done : List Stage}
      {result : FileTree × Option RunError} (succeeded : job.perform tree stage = (middle, none))
      (later : Ends job middle rest done result) : Ends job tree (stage :: rest) (stage :: done) result

variable {job : Job} {tree middle after : FileTree} {stage : Stage} {stages done : List Stage}
  {result : FileTree × Option RunError}

theorem Ends.isSome_iff (ends : job.Ends tree stages done result) :
    result.2.isSome = true ↔ done ≠ stages := by
  induction ends with
  | nil => simp
  | fail => simp
  | step succeeded later ih => simpa using ih

theorem Ends.of_success {rest : List Stage} (ends : job.Ends tree (stage :: rest) done result)
    (fine : (job.perform tree stage).2 = none) :
    ∃ later, done = stage :: later ∧ job.Ends (job.perform tree stage).1 rest later result := by
  cases ends with
  | fail _ failed =>
      rw [failed] at fine
      cases fine
  | step succeeded later =>
      rw [succeeded]
      exact ⟨_, rfl, later⟩

theorem Ends.exists_perform (ends : job.Ends tree stages done result) (member : stage ∈ done) :
    ∃ before after, job.perform before stage = (after, none) := by
  induction ends with
  | nil | fail => cases member
  | @step tree middle first rest done result succeeded later ih =>
      rcases List.mem_cons.mp member with rfl | behind
      · exact ⟨tree, middle, succeeded⟩
      · exact ih behind

/-- The renderer of a run that gets its picture takes the whole text and ends well. -/
theorem Ends.exists_renderer (ends : job.Ends tree stages done result) (member : .png ∈ done) :
    ∃ draw, job.renderer = some draw ∧ (draw job.graph.dot).takesText = true ∧
      (draw job.graph.dot).status = .code 0 := by
  obtain ⟨before, after, performed⟩ := ends.exists_perform member
  rw [perform, Prod.mk.injEq, Option.map_eq_none_iff] at performed
  exact FileTree.exists_renderer_of_render (Prod.ext performed.1 performed.2)

/-! What stages leave alone. -/

/-- A stage may replace files of one name, wherever they are. -/
def Touches (job : Job) (stage : Stage) (place : Location) : Prop :=
  ∃ suffix, stage.extension = some suffix ∧
    place.getLast? = some (job.request.productName suffix)

theorem touches_of_locate {suffix : String} {place : Location}
    (mine : stage.extension = some suffix)
    (located : tree.locate (job.request.outputPath suffix) = .ok place) :
    job.Touches stage place := by
  obtain ⟨inside, reached⟩ :=
    FileTree.follow_of_locate_join (Request.slash_not_mem_productName mine) located
  rw [Request.follow_productName mine] at reached
  exact ⟨suffix, mine, by rw [reached, List.getLast?_concat]⟩

theorem Touches.unique {other : Stage} {place : Location} (mine : job.Touches stage place)
    (its : job.Touches other place) : stage = other := by
  obtain ⟨suffix, mine, last⟩ := mine
  obtain ⟨_, its, same⟩ := its
  rw [last, Option.some.injEq, Request.productName, Request.productName, List.append_cancel_left_eq,
    List.cons.injEq, String.toList_inj] at same
  exact Stage.extension_injective (by rw [mine, its, same.2])

theorem written_spares {content : Text} {suffix : String}
    (mine : stage.extension = some suffix) :
    FileTree.Spares (job.Touches stage) tree
      (written tree (tree.writeText (job.request.outputPath suffix) content)).1 := by
  rw [FileTree.writeText]
  cases wrote : tree.write (job.request.outputPath suffix) (Utf8.encode content) with
  | error reason => exact .refl _ tree
  | ok after => exact (FileTree.write_spares wrote).mono fun _ => touches_of_locate mine

theorem perform_spares (job : Job) (tree : FileTree) (stage : Stage) :
    FileTree.Spares (job.Touches stage) tree (job.perform tree stage).1 := by
  cases stage with
  | directories => exact (tree.createDirectories_spares _).mono fun _ => False.elim
  | json => exact written_spares rfl
  | dot => exact written_spares rfl
  | png => exact (tree.render_spares _ _ _).mono fun _ => touches_of_locate rfl

/-- Stages after the first that fails touch nothing. -/
theorem Ends.spares (ends : job.Ends tree stages done result) :
    FileTree.Spares (fun place => ∃ stage ∈ stages.take (done.length + 1), job.Touches stage place)
      tree result.1 := by
  induction ends with
  | nil tree => exact .refl _ tree
  | @fail tree after stage reason rest failed =>
      have first := job.perform_spares tree stage
      rw [failed] at first
      exact first.mono fun place touched => ⟨stage, by simp, touched⟩
  | @step tree middle stage rest done result succeeded later ih =>
      have first := job.perform_spares tree stage
      rw [succeeded] at first
      refine (first.mono ?_).trans (ih.mono ?_)
      · intro place touched
        exact ⟨stage, by simp, touched⟩
      · intro place ⟨other, member, touched⟩
        exact ⟨other, by simp [member], touched⟩

/-! The texts that stages write are in their files when a run ends. -/

def text (job : Job) : Stage → Option Text
  | .json => some job.graph.toJson
  | .dot => some job.graph.dot
  | _ => none

theorem read_of_perform {suffix : String} {content : Text} (mine : stage.extension = some suffix)
    (writes : job.text stage = some content) (succeeded : job.perform tree stage = (after, none)) :
    after.read (job.request.outputPath suffix) = .ok (Utf8.encode content) := by
  have performed : written tree (tree.writeText (job.request.outputPath suffix) content) =
      (after, none) := by
    cases stage with
    | directories | png => cases writes
    | json | dot =>
        cases writes
        cases mine
        exact succeeded
  rw [FileTree.writeText] at performed
  cases wrote : tree.write (job.request.outputPath suffix) (Utf8.encode content) with
  | error reason =>
      rw [wrote] at performed
      cases performed
  | ok result =>
      rw [wrote] at performed
      cases performed
      exact FileTree.read_of_write wrote

theorem Ends.read (ends : job.Ends tree stages done result) (once : stages.Nodup)
    (member : stage ∈ done) {suffix : String} {content : Text}
    (mine : stage.extension = some suffix) (writes : job.text stage = some content) :
    result.1.read (job.request.outputPath suffix) = .ok (Utf8.encode content) := by
  induction ends with
  | nil | fail => cases member
  | @step tree middle first rest done result succeeded later ih =>
      obtain ⟨fresh, once⟩ := List.nodup_cons.mp once
      rw [List.mem_cons] at member
      by_cases here : stage = first
      · subst here
        refine later.spares.read (read_of_perform mine writes succeeded) ?_
        intro place located ⟨other, among, touched⟩
        rw [(touches_of_locate mine located).unique touched] at fresh
        exact fresh (List.mem_of_mem_take among)
      · exact ih once (member.resolve_left here)

end Job

/-! The actions of a run, taken apart into stages. A quiet run is enough for that, since a run has the
same effect without its status lines. Of the stages only the last one prints anything else, and what it
prints is its renderer's. -/

def Outcome.effect (outcome : Outcome) : FileTree × Option RunError :=
  (outcome.tree, outcome.error)

/-- An outcome with contents printed before. -/
def Outcome.showing (texts : List Text) (outcome : Outcome) : Outcome :=
  { outcome with printed := texts.map .content ++ outcome.printed }

theorem Outcome.showing_append (first second : List Text) (outcome : Outcome) :
    outcome.showing (first ++ second) = (outcome.showing second).showing first := by
  simp only [showing, List.map_append, List.append_assoc]

/-- Goes on where nothing has failed. -/
def Outcome.followedBy (first : Outcome) (next : FileTree → Outcome) : Outcome :=
  if first.error.isSome then first
  else
    { next first.tree with
      printed := first.printed ++ (next first.tree).printed
      complaints := first.complaints ++ (next first.tree).complaints }

section Plans

variable {renderer : Option Renderer} {tree : FileTree} {actions : List Action}

theorem effect_performAll (quiet : Bool) (renderer : Option Renderer) (tree : FileTree)
    (actions : List Action) :
    (performAll quiet renderer tree actions).effect = (performAll true renderer tree actions).effect := by
  induction actions generalizing tree with
  | nil => rfl
  | cons action actions ih =>
      rw [performAll, performAll]
      rcases action.perform renderer tree with ⟨after, _ | error⟩
      · exact ih after
      · rfl

theorem performAll_append (quiet : Bool) (renderer : Option Renderer) (tree : FileTree)
    (first second : List Action) :
    performAll quiet renderer tree (first ++ second) =
      (performAll quiet renderer tree first).followedBy fun middle =>
        performAll quiet renderer middle second := by
  induction first generalizing tree with
  | nil => rfl
  | cons action first ih =>
      rw [List.cons_append, performAll, performAll]
      rcases action.perform renderer tree with ⟨after, _ | error⟩
      · simp only [ih]
        rcases performAll quiet renderer after first with ⟨printed, complaints, _ | error, middle⟩
        · simp [Outcome.followedBy]
        · rfl
      · rfl

theorem performAll_status (line : List Span) :
    performAll true renderer tree (.status line :: actions) = performAll true renderer tree actions :=
  rfl

theorem performAll_print_if (asked : Bool) (content : Text) :
    performAll true renderer tree ((if asked then [.print content] else []) ++ actions) =
      (performAll true renderer tree actions).showing (if asked then [content] else []) := by
  cases asked <;> rfl

theorem performAll_statuses (renderer : Option Renderer) (tree : FileTree)
    (lines : List (List Span)) :
    performAll true renderer tree (lines.map .status) = ⟨[], [], none, tree⟩ := by
  induction lines with
  | nil => rfl
  | cons line lines ih => exact ih

theorem performAll_reported (action : Action) (lines : List (List Span)) :
    performAll true renderer tree (action :: lines.map .status) =
      ⟨action.output true renderer, action.complaints renderer,
        (action.perform renderer tree).2, (action.perform renderer tree).1⟩ := by
  rw [performAll]
  rcases action.perform renderer tree with ⟨after, _ | error⟩
  · simp only [performAll_statuses, List.append_nil]
  · rfl

theorem perform_write (path content : Text) : (Action.write path content).perform renderer tree =
    Job.written tree (tree.writeText path content) := by
  rw [Action.perform]
  cases tree.writeText path content <;> rfl

end Plans

theorem Request.wants_eq_asks {request : Request} {stage : Stage} {product : Product}
    (made : stage.product? = some product) : request.wants product = request.asks stage := by
  cases stage with
  | directories => cases made
  | json | dot | png =>
      cases made
      rw [wants, asks]
      cases request.products <;> simp

namespace Job

variable {job : Job} {stage : Stage}

def actions (job : Job) : Stage → List Action
  | .directories => job.request.directoryActions
  | .json => job.request.jsonActions job.graph
  | .dot => job.request.dotActions job.graph
  | .png => job.request.pngActions job.graph

theorem actions_of_unasked (unasked : job.request.asks stage = false) : job.actions stage = [] := by
  cases stage with
  | directories =>
      rw [Request.asks, Option.isSome_eq_false_iff, Option.isNone_iff_eq_none] at unasked
      rw [actions, Request.directoryActions, unasked]
      rfl
  | json =>
      have unwanted : job.request.wants .json = false := (Request.wants_eq_asks rfl).trans unasked
      simp [actions, Request.jsonActions, unwanted]
  | dot =>
      have unwanted : job.request.wants .dot = false := (Request.wants_eq_asks rfl).trans unasked
      simp [actions, Request.dotActions, unwanted]
  | png =>
      have unwanted : job.request.wants .png = false := (Request.wants_eq_asks rfl).trans unasked
      simp [actions, Request.pngActions, unwanted]

/-- What the renderer does in a stage, if the stage starts it. -/
def renderings (job : Job) : Stage → List Rendering
  | .png =>
    (startRenderer job.renderer (job.request.outputPath "png") job.graph.dot).toOption.toList
  | _ => []

theorem performAll_actions (asked : job.request.asks stage = true) (tree : FileTree) :
    performAll true job.renderer tree (job.actions stage) =
      ⟨(job.renderings stage).map (.foreign ·.output), (job.renderings stage).flatMap (·.complaints),
        (job.perform tree stage).2, (job.perform tree stage).1⟩ := by
  cases stage with
  | directories =>
      obtain ⟨path, given⟩ := Option.isSome_iff_exists.mp asked
      rw [actions, Request.directoryActions, perform, Request.directory, given]
      exact performAll_reported (.createDirectories path) []
  | json =>
      have wanted : job.request.wants .json = true := (Request.wants_eq_asks rfl).trans asked
      rw [actions, Request.jsonActions, if_pos wanted]
      refine (performAll_reported (.write _ _) [_]).trans ?_
      rw [perform_write]
      rfl
  | dot =>
      have wanted : job.request.wants .dot = true := (Request.wants_eq_asks rfl).trans asked
      rw [actions, Request.dotActions, if_pos wanted]
      refine (performAll_reported (.write _ _) [_]).trans ?_
      rw [perform_write]
      rfl
  | png =>
      have wanted : job.request.wants .png = true := (Request.wants_eq_asks rfl).trans asked
      rw [actions, Request.pngActions, if_pos wanted, performAll_status]
      refine (performAll_reported (.render _ _) [_]).trans ?_
      rw [renderings, Action.output, Action.complaints]
      cases startRenderer job.renderer (job.request.outputPath "png") job.graph.dot with
      | error reason => rfl
      | ok rendering => simp [Except.toOption, perform, Action.perform]

/-- The stages that a run gets to are those that succeed and the one behind them. -/
theorem ends_of_actions (job : Job) (tree : FileTree) (stages : List Stage) :
    ∃ done,
      job.Ends tree (stages.filter job.request.asks) done
        (performAll true job.renderer tree (stages.flatMap job.actions)).effect ∧
      (performAll true job.renderer tree (stages.flatMap job.actions)).printed =
        (((stages.filter job.request.asks).take (done.length + 1)).flatMap job.renderings).map
          (.foreign ·.output) ∧
      (performAll true job.renderer tree (stages.flatMap job.actions)).complaints =
        (((stages.filter job.request.asks).take (done.length + 1)).flatMap job.renderings).flatMap
          (·.complaints) := by
  induction stages generalizing tree with
  | nil => exact ⟨[], .nil tree, rfl, rfl⟩
  | cons stage stages ih =>
      rw [List.flatMap_cons]
      cases asked : job.request.asks stage with
      | false =>
          rw [List.filter_cons_of_neg (by simp [asked]), actions_of_unasked asked]
          exact ih tree
      | true =>
          rw [List.filter_cons_of_pos asked, performAll_append, performAll_actions asked]
          rcases performed : job.perform tree stage with ⟨middle, error⟩
          cases error with
          | some reason =>
              -- The renderer of a stage that fails has printed all the same.
              refine ⟨[], .fail _ performed, ?_, ?_⟩
              · simp [Outcome.followedBy]
              · simp [Outcome.followedBy]
          | none =>
              obtain ⟨done, later, printed, complaints⟩ := ih middle
              refine ⟨stage :: done, .step performed later, ?_, ?_⟩
              · simp [Outcome.followedBy, printed]
              · simp [Outcome.followedBy, complaints]

end Job

namespace Request

variable {request : Request} {renderer : Option Renderer} {tree : FileTree} {octets : List UInt8}

/-- What a program makes a run print besides status lines: its tokens, and its graph if it has one. -/
def contents (request : Request) (program : Text) : List Text :=
  (if request.wants .tokens then [[' '].intercalate ((tokenize program).map Token.text)] else []) ++
    match compile program with
    | .error _ => []
    | .ok graph => if request.wants .graph then [graph.dump] else []

theorem performAll_uncompiled {reason : BuildError}
    (failed : compile (request.encoding.decode octets) = .error reason) :
    performAll true renderer tree (request.actions (.ok octets)) =
      Outcome.showing (request.contents (request.encoding.decode octets))
        ⟨[], [], some (.program reason), tree⟩ := by
  rw [contents, failed, List.append_nil]
  rw [compile] at failed
  simp only [actions, programActions, failed, List.cons_append, List.nil_append, performAll_status,
    performAll_print_if]
  rfl

theorem performAll_compiled {graph : Graph}
    (compiled : compile (request.encoding.decode octets) = .ok graph) :
    performAll true renderer tree (request.actions (.ok octets)) =
      (performAll true renderer tree
        (Stage.order.flatMap (Job.actions ⟨request, renderer, graph⟩))).showing
          (request.contents (request.encoding.decode octets)) := by
  rw [contents, compiled, Outcome.showing_append]
  rw [compile] at compiled
  simp only [actions, programActions, compiled, graphActions, List.append_assoc, List.cons_append,
    List.nil_append, performAll_status, performAll_print_if]
  simp only [Stage.order, List.flatMap_cons, List.flatMap_nil, List.append_nil, Job.actions]

theorem effect_run (request : Request) (renderer : Option Renderer) (tree : FileTree) :
    (request.run renderer tree).effect =
      (performAll true renderer tree (request.actions (tree.read request.file))).effect :=
  effect_performAll _ _ _ _

theorem effect_of_unread {reason : FileError} (unread : tree.read request.file = .error reason) :
    (request.run renderer tree).effect = (tree, some (.file reason)) := by
  rw [effect_run, unread]
  rfl

theorem effect_of_uncompiled {reason : BuildError} (held : tree.read request.file = .ok octets)
    (failed : compile (request.encoding.decode octets) = .error reason) :
    (request.run renderer tree).effect = (tree, some (.program reason)) := by
  rw [effect_run, held, performAll_uncompiled failed]
  rfl

theorem ends_of_compiled {graph : Graph} (renderer : Option Renderer)
    (held : tree.read request.file = .ok octets)
    (compiled : compile (request.encoding.decode octets) = .ok graph) :
    ∃ done, Job.Ends ⟨request, renderer, graph⟩ tree request.stages done
      (request.run renderer tree).effect := by
  obtain ⟨done, ends, _⟩ := Job.ends_of_actions ⟨request, renderer, graph⟩ tree Stage.order
  rw [effect_run, held, performAll_compiled compiled]
  exact ⟨done, ends⟩

/-- The file of a product, in the place of the output directory, holds a text. -/
def Holds (request : Request) (tree : FileTree) (extension : String) (content : Text) : Prop :=
  ∃ inside, tree.locate request.directory = .ok inside ∧
    tree.get? (inside ++ [request.productName extension]) = some (.file (Utf8.encode content))

theorem holds_of_read {suffix : String} {content : Text} (named : request.output ≠ some [])
    (stage : Stage) (mine : stage.extension = some suffix)
    (held : tree.read (request.outputPath suffix) = .ok (Utf8.encode content)) :
    request.Holds tree suffix content := by
  obtain ⟨place, located, found⟩ := FileTree.read_eq_ok_iff.mp held
  obtain ⟨inside, above, rfl⟩ := locate_outputPath named mine located
  exact ⟨inside, above, found⟩

end Request

theorem Outcome.exitCode_of_effect {outcome : Outcome} {tree : FileTree} {error : Option RunError}
    (ended : outcome.effect = (tree, error)) :
    outcome.exitCode = (if error.isSome then 1 else 0) ∧ outcome.error = error ∧
      outcome.tree = tree := by
  cases ended
  exact ⟨rfl, rfl, rfl⟩

theorem Job.Ends.exitCode {job : Job} {outcome : Outcome} {tree : FileTree} {stages done : List Stage}
    (ends : job.Ends tree stages done outcome.effect) :
    outcome.exitCode = if done = stages then 0 else 1 := by
  have failed : outcome.error.isSome = true ↔ done ≠ stages := ends.isSome_iff
  rw [Outcome.exitCode]
  by_cases all : done = stages
  · rw [if_neg (fun some => failed.mp some all), if_pos all]
  · rw [if_pos (failed.mpr all), if_neg all]

theorem FileTree.readJson_of_read {tree : FileTree} {path : Text} {graph : Graph}
    (held : tree.read path = .ok (Utf8.encode graph.toJson))
    (returns : Graph.ofJson graph.toJson = .ok graph) : tree.readJson path = .ok graph := by
  simp only [readJson, held, Utf8.decode?_encode, returns]
  rfl

theorem ofJson_toJson_of_decode {encoding : Encoding} {octets : List UInt8} {graph : Graph}
    (short : octets.length < Json.wordSize) (compiled : compile (encoding.decode octets) = .ok graph) :
    Graph.ofJson graph.toJson = .ok graph := by
  refine ofJson_toJson_of_build ?_ compiled
  calc (tokenize (encoding.decode octets)).length
      ≤ (encoding.decode octets).length := length_tokenize_le _
    _ ≤ octets.length := encoding.length_decode_le octets
    _ < Json.wordSize := short

/-- Unless there is a graph, a run fails and changes nothing. If there is one, the run does the stages
asked for in their order, up to the first that fails; what stages before that one wrote is in place
when the run ends, and the document that was written is read as the graph. A picture is drawn by a
renderer that takes the whole text and ends well. -/
theorem run_completes_stages {arguments : List Text} {request : Request}
    (accepted : Invocation.ofArguments arguments = .run request) (renderer : Option Renderer)
    (tree : FileTree) :
    (∀ reason, tree.read request.file = .error reason →
      (request.run renderer tree).exitCode = 1 ∧
        (request.run renderer tree).error = some (.file reason) ∧
        (request.run renderer tree).tree = tree) ∧
    ∀ octets, tree.read request.file = .ok octets →
      (∀ reason, compile (request.encoding.decode octets) = .error reason →
        (request.run renderer tree).exitCode = 1 ∧
          (request.run renderer tree).error = some (.program reason) ∧
          (request.run renderer tree).tree = tree) ∧
      ∀ graph, compile (request.encoding.decode octets) = .ok graph →
        ∃ done,
          Job.Ends ⟨request, renderer, graph⟩ tree request.stages done
            ((request.run renderer tree).tree, (request.run renderer tree).error) ∧
          (request.run renderer tree).exitCode = (if done = request.stages then 0 else 1) ∧
          FileTree.Spares
            (fun place => ∃ stage ∈ request.stages.take (done.length + 1),
              Job.Touches ⟨request, renderer, graph⟩ stage place)
            tree (request.run renderer tree).tree ∧
          (.json ∈ done → request.Holds (request.run renderer tree).tree "json" graph.toJson ∧
            (octets.length < Json.wordSize →
              (request.run renderer tree).tree.readJson (request.outputPath "json") = .ok graph)) ∧
          (.dot ∈ done → request.Holds (request.run renderer tree).tree "dot" graph.dot) ∧
          (.png ∈ done → ∃ draw, renderer = some draw ∧ (draw graph.dot).takesText = true ∧
            (draw graph.dot).status = .code 0) := by
  have named := output_ne_nil_of_accepted accepted
  refine ⟨?_, ?_⟩
  · intro reason unread
    exact Outcome.exitCode_of_effect (Request.effect_of_unread unread)
  · intro octets held
    refine ⟨?_, ?_⟩
    · intro reason failed
      exact Outcome.exitCode_of_effect (Request.effect_of_uncompiled held failed)
    · intro graph compiled
      obtain ⟨done, ends⟩ := Request.ends_of_compiled renderer held compiled
      refine ⟨done, ends, ends.exitCode, ends.spares, ?_, ?_, ends.exists_renderer⟩
      · intro member
        have wrote := ends.read request.nodup_stages member rfl rfl
        refine ⟨Request.holds_of_read named .json rfl wrote, ?_⟩
        intro short
        exact FileTree.readJson_of_read wrote (ofJson_toJson_of_decode short compiled)
      · intro member
        have wrote := ends.read request.nodup_stages member rfl rfl
        exact Request.holds_of_read named .dot rfl wrote

/-- A renderer that draws and ends well, but does not take the whole text, fails. It takes nothing from
the document that was written before. -/
theorem run_completes_stages_of_broken_pipe :
    ∃ request graph,
      Invocation.ofArguments ["-oout".toList, "x.1".toList, "png".toList, "json".toList] =
          .run request ∧
        compile (request.encoding.decode [0x44, 0x20, 0x23]) = .ok graph ∧
        (request.run (some fun _ => ⟨false, some [0x89], [], [], .code 0⟩)
          ⟨[], [(["x.1".toList], .file [0x44, 0x20, 0x23])]⟩).exitCode = 1 ∧
        (request.run (some fun _ => ⟨false, some [0x89], [], [], .code 0⟩)
          ⟨[], [(["x.1".toList], .file [0x44, 0x20, 0x23])]⟩).tree.readJson "out/x.json".toList =
            .ok graph := by
  let request : Request := ⟨"x.1".toList, [.png, .json], some "out".toList, .latin1, false⟩
  let renderer : Option Renderer := some fun _ => ⟨false, some [0x89], [], [], .code 0⟩
  let tree : FileTree := ⟨[], [(["x.1".toList], .file [0x44, 0x20, 0x23])]⟩
  have accepted : Invocation.ofArguments
      ["-oout".toList, "x.1".toList, "png".toList, "json".toList] = .run request := by
    decide +kernel
  have held : tree.read request.file = .ok [0x44, 0x20, 0x23] := by decide +kernel
  have tokens : tokenize (request.encoding.decode [0x44, 0x20, 0x23]) = [.moveRight, .endOfFile] := by
    decide +kernel
  have built : build [.moveRight, .endOfFile] = .ok _ := rfl
  have compiled := (congrArg build tokens).trans built
  have code : (request.run renderer tree).exitCode = 1 := by decide +kernel
  obtain ⟨done, ends, _, _, document, _, _⟩ :=
    ((run_completes_stages accepted renderer tree).2 _ held).2 _ compiled
  have asked : request.stages = [.directories, .json, .png] := by decide +kernel
  rw [asked] at ends
  obtain ⟨later, rfl, rest⟩ := ends.of_success (by decide +kernel)
  obtain ⟨last, rfl, _⟩ := rest.of_success (by decide +kernel)
  exact ⟨request, _, accepted, compiled, code, (document (by simp)).2 (by decide)⟩

end TapeFlow
