import Scripting.Proofs.Reading.Excerpts
import Scripting.Proofs.Running.Uncounted
import Scripting.Proofs.Sessions.Located
import Scripting.Proofs.Sessions.Requests

/-!
# The lines that faults show

A fault in which a program ends is shown with the line that has the number of the fault's line
in the source that is run.  The fault is blamed on a token of some text that has been read.
When this is the source itself, the line is the one on which the token starts, with a mark
below its first character (`Token.StartsOn`, `Fault.PointsAt`).  But the token may stand in a
function that was declared by an earlier input or by an included file, and then the line is
that of the token only if both texts have the same one there.

Main statement: `Session.faults_show_lines`.
-/

namespace Scripting

open Tree (Arena)

/-! ## What a fault shows -/

namespace Fault

variable {fault : Fault}

/-- The fault shows the line of the text on which the token starts, and a mark below the
column in which it does. -/
def PointsAt (fault : Fault) (token : Token) (text : String) : Prop :=
  ∃ line, token.StartsOn text line ∧ fault.sourceLine = some line ∧
    fault.text = { fault with sourceLine := none }.text ++ excerpt line token.span.column

/-- What a fault of a running program shows when a source has been run, with the texts that
have been read until the run has ended. -/
inductive Shown (fault : Fault) (source : String) (arena : Arena) : Prop
  /-- The fault is blamed on a token of one of the texts, and shows the line of the source with
  the number of the token's line. So it points at the token if the source has the same line
  there as the text of the token, as it has when it is this text itself. -/
  | onToken {texts : List String} {text : String} {token : Token} :
      arena = Arena.empty.readAll texts → source ∈ texts → text ∈ texts →
      token ∈ (tokensOf text).body → fault.Blames token →
      fault.sourceLine = Text.line? source token.span.line →
      (∀ other, token ∈ (tokensOf other).body →
        (fault.PointsAt token other ↔
          Text.line? source token.span.line = Text.line? other token.span.line)) →
        Shown fault source arena
  | unplaced : fault.span = none → fault.sourceLine = none → Shown fault source arena

/-- A fault points at a token of a text if and only if it shows the line of the text with the
number of the token's line. -/
theorem Blames.pointsAt_iff
    {token : Token}
    (blames : fault.Blames token)
    {text : String}
    (stands : token ∈ (tokensOf text).body) :
    fault.PointsAt token text ↔ fault.sourceLine = Text.line? text token.span.line := by
  constructor
  · rintro ⟨line, starts, shown, -⟩
    rw [shown, starts.isLine]
  · intro shown
    obtain ⟨line, starts⟩ := Token.exists_startsOn stands
    rw [starts.isLine] at shown
    exact ⟨line, starts, shown, text_of_sourceLine blames.span shown⟩

theorem Explained.shown
    {points : List Point}
    {texts : List String}
    {host : Host}
    (explained : fault.Explained points texts host)
    (unshown : fault.sourceLine = none)
    {source : String}
    (isSource : source ∈ texts) :
    (fault.withSource source).Shown source (Arena.empty.readAll texts) := by
  have line := sourceLine_withSource unshown source
  cases explained.withSource source with
  | raised _ _ isText stands blames =>
      rw [← withSource_span fault source, blames.span, Option.bind_some] at line
      refine .onToken rfl isSource isText stands blames line fun other inside => ?_
      rw [blames.pointsAt_iff inside, line]
  | unflushed _ _ _ same =>
      rw [same] at line ⊢
      exact .unplaced rfl rfl

end Fault

/-! ## Programs -/

/-- A fault in which a program ends shows no line yet. -/
theorem Machine.Standard.sourceLine_of_programWith
    {machine later : Machine}
    (standard : machine.Standard)
    {source : String}
    {bound : Nat}
    {fault : Fault}
    (failed : Run.programWith (Run.within bound) source machine = .error (.fault fault) later) :
    fault.sourceLine = none := by
  have fits := standard.fits_rootOf source
  obtain ⟨points, unfolds, -⟩ := Run.exists_unfolds (motive := fun _ _ _ _ => True)
    (fun _ _ => trivial) (fun _ _ _ _ _ _ _ => trivial) bound [] fits
  rw [Run.programWith_eq] at failed
  obtain ⟨inner, failed⟩ | ⟨_, _, _, -, -, rfl⟩ := Run.leave_cases failed
  · obtain ⟨_, _, _, -, raises, -⟩ := unfolds.exists_raises fits (by rintro _ ⟨_, ⟨⟩⟩) failed
    rw [raises.blames]
    rfl
  · rfl

theorem Machine.Standard.shown_of_programWith
    {machine later : Machine}
    (standard : machine.Standard)
    (texts : Regime.texts.holds machine)
    {source : String}
    {bound : Nat}
    {fault : Fault}
    (failed : Run.programWith (Run.within bound) source machine = .error (.fault fault) later) :
    (fault.withSource source).Shown source later.arena := by
  obtain ⟨earlier, known⟩ := texts
  obtain ⟨points, included, -, read, explains⟩ := standard.explains_programWith known source bound
  rw [failed] at read
  have whole : later.arena = Arena.empty.readAll (earlier ++ source :: included) := by
    rw [Arena.readAll_append, ← known]
    exact read
  rw [whole]
  exact (explains fault later failed).shown (standard.sourceLine_of_programWith failed) (by simp)

/-- Whatever comes of the source when it is run on the machine, by a session or by a program
that includes it, the faults of the running program show lines of the source. -/
def Machine.Shows (machine : Machine) (source : String) : Prop :=
  ∀ bound faults later, Run.sourceWith (Run.within bound) source machine = .ok faults later →
    ∀ fault ∈ faults, fault.stage = .running → fault.Shown source later.arena

theorem Machine.Standard.shows
    {machine : Machine}
    (standard : machine.Standard)
    (texts : Regime.texts.holds machine)
    (source : String) :
    machine.Shows source := by
  intro bound faults later ended fault member running
  obtain ⟨-, rfl, -⟩ | ⟨-, ⟨rfl, -⟩ | ⟨fault, rfl, failed⟩⟩ := Run.sourceWith_cases ended
  · exact absurd running (stage_ne_running member)
  · exact absurd member List.not_mem_nil
  · obtain rfl := List.mem_singleton.mp member
    exact standard.shown_of_programWith texts failed

/-! ## Included programs -/

/-- Other surroundings change nothing of what has been read or declared. -/
theorem Machine.Standard.hosted
    {machine : Machine}
    (standard : machine.Standard)
    (host : Host) :
    Machine.Standard { machine with host := host } :=
  standard.of_same rfl rfl

/-- If the errand runs a program that is found in a file, the faults of the running program
show lines of this program. -/
def Errand.ShowsIncluded (errand : Errand) (machine : Machine) : Prop :=
  ∀ given arguments found source sought, errand = .call (.builtin given) arguments →
    given.action = .runFile →
    Meaning.locate (arguments.headD .null) machine = .ok (.ok (found, source)) sought →
      sought.Shows source

theorem Machine.Standard.showsIncluded
    {machine : Machine}
    (standard : machine.Standard)
    (texts : Regime.texts.holds machine)
    (errand : Errand) :
    errand.ShowsIncluded machine := by
  intro given arguments found source sought _ _ located
  obtain ⟨_, wishes, ends⟩ := AsksForFiles.locate (arguments.headD .null) machine
  rw [located] at ends
  cases ends
  exact (standard.hosted { machine.host with wishes := wishes }).shows texts source

/-! ## Sessions -/

namespace Session

theorem shown_run
    {session : Session}
    (standard : session.machine.Standard)
    (texts : Regime.texts.holds session.machine)
    (source : String) :
    ∀ fault ∈ (session.run source).1.faults, fault.stage = .running →
      fault.Shown source (session.run source).2.machine.arena := by
  intro fault member running
  cases ended : (session.run source).1 with
  | exhausted =>
      rw [ended] at member
      exact absurd member List.not_mem_nil
  | done faults =>
      rw [ended] at member
      have answered := answered_run ended
      generalize (session.run source).2.machine = later at answered
      cases answered with
      | rejected => exact absurd running (stage_ne_running member)
      | completed => exact absurd member List.not_mem_nil
      | failed _ failed =>
          obtain rfl := List.mem_singleton.mp member
          exact standard.shown_of_programWith texts failed

/-- Whatever a session has been asked for before, a fault of a running program is shown with a
line of the source that has been run, whether it is given to the session, read as its startup
program, or included by another program: the line with the number of the line on which the
token starts that the fault is blamed on. If the token is one of this source, it starts on the
line that is shown, and the mark stands below its first character. -/
theorem faults_show_lines (settings : Settings) (host : Host) (requests : List Request) :
    let session := (ofSettings settings host).after requests
    (∀ source,
      session.machine.Shows source ∧
      (∀ fault ∈ (session.run source).1.faults, fault.stage = .running →
        fault.Shown source (session.run source).2.machine.arena) ∧
      ∀ bound, Run.Throughout (fun errand machine => errand.ShowsIncluded machine) bound
        (Run.programWith · source) session.machine) ∧
    ∀ path source, session.settings.startup = some path →
      session.machine.host.files.read path = .ok source →
      ∀ fault ∈ session.runStartup.1.faults, fault.stage = .running →
        fault.Shown source session.runStartup.2.machine.arena := by
  intro session
  have holds : (Regime.standard.both .texts).holds session.machine :=
    holds_after (Regime.standard.both .texts)
      ⟨standard_ofSettings settings host, texts_ofSettings settings host⟩ requests
  obtain ⟨standard, texts⟩ := id holds
  refine ⟨fun source => ⟨standard.shows texts source, shown_run standard texts source,
    fun bound => ?included⟩, fun path source named read => ?startup⟩
  case included =>
    refine Regime.throughout_program ?_ bound source holds
    exact fun errand machine kept _ => kept.1.showsIncluded kept.2 errand
  case startup =>
    unfold Session.runStartup
    rw [named]
    dsimp only
    rw [read]
    let asked : Session := { session with
      machine := { session.machine with host := session.machine.host.wishing (.path path) } }
    exact @shown_run asked (standard.hosted _) texts source

/-- The mark stands below the name that is missing, on the second line of the source. -/
theorem faults_show_lines_of_missing :
    let session := (ofSettings .standard (.ofFiles ⟨[]⟩ [])).after [.run "echo 1", .resetError]
    let source := "echo \"a\";\necho missing;"
    (session.run source).1.faults.map Fault.text =
        ["[line 2:6] Runtime error at 'missing': undefined variable 'missing'\n" ++
          "  | echo missing;\n" ++
          "  |      ^"] ∧
      ∀ fault ∈ (session.run source).1.faults,
        fault.stage = .running ∧ fault.Shown source (session.run source).2.machine.arena := by
  intro session source
  have running : ∀ fault ∈ (session.run source).1.faults, fault.stage = .running := by
    decide +kernel
  obtain ⟨shows, -⟩ := faults_show_lines .standard (.ofFiles ⟨[]⟩ []) [.run "echo 1", .resetError]
  exact ⟨by decide +kernel,
    fun fault member => ⟨running fault member, (shows source).2.1 fault member (running _ member)⟩⟩

/-- A fault in a function of an earlier input is shown with a line of the input that calls it,
on which its token does not stand. -/
theorem faults_show_other_lines :
    let declaring := "fn f() \x7b echo missing; \x7d"
    let session := (ofSettings .standard (.ofFiles ⟨[]⟩ [])).after [.run declaring]
    ∃ fault token, (session.run "f();").1.faults = [fault] ∧ fault.stage = .running ∧
      fault.sourceLine = some "f();" ∧ fault.Blames token ∧
      token ∈ (tokensOf declaring).body ∧ token ∉ (tokensOf "f();").body ∧
      ¬ fault.PointsAt token declaring := by
  intro declaring session
  let fault : Fault :=
    { cause := .undefinedVariable "missing"
      span := some ⟨14, 21, 1, 15⟩
      lexeme := some "missing"
      sourceLine := some "f();" }
  let token := (tokensOf declaring).body.get ⟨6, by decide +kernel⟩
  have span : token.span = ⟨14, 21, 1, 15⟩ := by decide +kernel
  have isName : token.kind = .identifier ∧ token.lexeme = "missing" := by decide +kernel
  have blames : fault.Blames token :=
    { inside := by simp [isName.1]
      bears := isName
      span := congrArg some span.symm
      lexeme := congrArg some isName.2.symm }
  have stands : token ∈ (tokensOf declaring).body := List.get_mem _ _
  have elsewhere : ∀ other ∈ (tokensOf "f();").body, other.span ≠ ⟨14, 21, 1, 15⟩ := by
    decide +kernel
  refine ⟨fault, token, by decide +kernel, rfl, rfl, blames, stands,
    fun inside => elsewhere token inside span, fun points => ?_⟩
  have same := (blames.pointsAt_iff stands).mp points
  rw [span] at same
  exact absurd same (by decide +kernel)

end Session
end Scripting
