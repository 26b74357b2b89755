import DialServer.Lib.CommandLine
import DialServer.Handlers

/-!
# The YouTube plugin

The start callback of `plugin.cpp`. It builds a URL from the payload and the
additional data and hands a command line with the URL in it to `system`. Its tests
`payload != ""` compare addresses, so they tell the handler's arrays from the
literal and never an empty text from another (`StartFrame`).

The command interpreter replaces the variables of the line (`CommandLine.expand`). Then
it takes `&`, `|`, `<` and `>` outside double quotes for separators and redirections, and
drops a caret there (`CommandLine.argument`). Nothing in the line is quoted by the plugin.
`DialServer.start_noInjection_iff` says which payloads are harmless: those that bring the
quotes themselves.
-/

namespace DialServer

open CLib

/-! ### The callbacks -/

/-- A pointer to a string that the code compares by address. -/
structure CharPtr where
  addr : Ptr
  str : CStr
  deriving DecidableEq

/-- Where the strings are when `start_cb` is called: the two arrays of
`handle_app_start`, and the empty literals of `youtube_start`, one for each
comparison. An array is an object of its own. -/
structure StartFrame where
  body : Ptr
  additionalDataParam : Ptr
  literals : ℕ → Ptr
  body_ne : ∀ n, body ≠ literals n
  additionalDataParam_ne : ∀ n, additionalDataParam ≠ literals n

/-- The `url` of `youtube_start`. -/
def youtubeUrl (literals : ℕ → Ptr) (payload additionalDataUrl : CharPtr) : CStr :=
  if payload.addr ≠ literals 0 ∧ additionalDataUrl.addr ≠ literals 1 then
    .lit "https://www.youtube.com/tv?" ++ payload.str ++ .lit "&" ++ additionalDataUrl.str
  else if payload.addr ≠ literals 2 then .lit "https://www.youtube.com/tv?" ++ payload.str
  else .lit "https://www.youtube.com/tv"

/-- What `youtube_start` hands to `system`. -/
def youtubeStartLine (literals : ℕ → Ptr) (executable : CStr)
    (payload additionalDataUrl : CharPtr) : CStr :=
  .lit "start " ++ executable ++ .lit " --app=" ++ youtubeUrl literals payload additionalDataUrl

/-- The default of `spAppYouTubeExecutable`. -/
def defaultExecutable : CStr := .lit "C:\\PROGRA~2\\Google\\Chrome\\Application\\chrome.exe"

/-- The desktop, as far as the plugin deals with it. -/
structure Desktop (δ : Type) where
  /-- A line is handed to `system`. -/
  system : δ → CStr → δ
  /-- The windows are searched for the one of the application. -/
  isWndRunning : δ → δ × Bool
  /-- That window is sent a message. -/
  sendMessage : δ → δ

/-- The callbacks of the plugin, over the lines handed to `system` so far and the
desktop. -/
def youtubeHost {δ : Type} (frame : StartFrame) (executable : CStr) (desktop : Desktop δ)
    (canOpen : List CStr × δ → CStr → Bool) (belowVersion : CStr → Bool) :
    Host (List CStr × δ) where
  startCb s _ payload additionalDataUrl _ :=
    let line := youtubeStartLine frame.literals executable ⟨frame.body, payload⟩
      ⟨frame.additionalDataParam, additionalDataUrl⟩
    ((s.1 ++ [line], desktop.system s.2 line), .running, none)
  hideCb s _ _ :=
    let (d, isRunning) := desktop.isWndRunning s.2
    ((s.1, d), if isRunning then .running else .stopped, none)
  stopCb s _ _ :=
    let (d, _) := desktop.isWndRunning s.2
    (s.1, desktop.sendMessage d)
  statusCb s _ _ :=
    let (d, isRunning) := desktop.isWndRunning s.2
    ((s.1, d), if isRunning then .running else .stopped, some 1)
  canOpen := canOpen
  belowVersion := belowVersion

/-! ### The command line -/

/-- What the line begins with, up to the arguments of the program. -/
def commandFront (executable : CStr) : CStr := .lit "start " ++ executable ++ .lit " "

/-- The `--app` argument, as far as the payload goes. -/
def appArgument (payload : CStr) : CStr := .lit "--app=https://www.youtube.com/tv?" ++ payload

/-- **The line is one command with the payload in it**: the arguments begin where the plugin
begins them, and the first holds the payload and the `&` that joins the additional data to it. -/
def NoInjection (env : List UInt8 → Option (List UInt8)) (executable payload line : CStr) :
    Prop :=
  ∃ tail, CommandLine.expand env line.bytes = (commandFront executable).bytes ++ tail ∧
    CommandLine.scan .outside (commandFront executable).bytes = .outside ∧
    (appArgument payload).bytes ++ ['&'.toUInt8] <+: CommandLine.argument .outside tail

/-- The payload brings its own quotes: each of its separators, blanks and carets stands after an
odd number of them, and so does its end. The path of the executable leaves none open. -/
def BringsQuotes (executable payload : CStr) : Prop :=
  CommandLine.scan .outside (commandFront executable).bytes = .outside ∧
    (∀ i c, payload.bytes[i]? = some c → CommandLine.isSpecial c = true →
      Odd (CommandLine.quotes (payload.bytes.take i))) ∧
    Odd (CommandLine.quotes payload.bytes)

/-- With the handler's arrays the additional data is always joined. -/
theorem youtubeStartLine_frame (frame : StartFrame) (executable payload additional : CStr) :
    youtubeStartLine frame.literals executable ⟨frame.body, payload⟩
        ⟨frame.additionalDataParam, additional⟩ =
      commandFront executable ++ appArgument payload ++ .lit "&" ++ additional := by
  have hsplit : CStr.lit " --app=" ++ .lit "https://www.youtube.com/tv?" =
      .lit " " ++ .lit "--app=https://www.youtube.com/tv?" := by decide
  rw [youtubeStartLine, youtubeUrl,
    if_pos ⟨frame.body_ne 0, frame.additionalDataParam_ne 1⟩, commandFront, appArgument]
  simp only [CStr.append_assoc]
  rw [← CStr.append_assoc (.lit " --app="), hsplit]
  simp only [CStr.append_assoc]

/-- The argument starts outside quotes, so only the payload's own count. -/
theorem kept_appArgument_iff {payload : CStr} :
    (CommandLine.Kept .outside (appArgument payload).bytes ∧
        CommandLine.scan .outside (appArgument payload).bytes = .inside) ↔
      (∀ i c, payload.bytes[i]? = some c → CommandLine.isSpecial c = true →
        Odd (CommandLine.quotes (payload.bytes.take i))) ∧
        Odd (CommandLine.quotes payload.bytes) := by
  have hkept : CommandLine.Kept .outside (CStr.lit "--app=https://www.youtube.com/tv?").bytes := by
    decide
  have hscan : CommandLine.scan .outside (CStr.lit "--app=https://www.youtube.com/tv?").bytes =
      .outside := by decide
  have hcount := CommandLine.kept_iff_odd 0 payload.bytes
  simp only [Nat.zero_add] at hcount
  rw [appArgument, CStr.bytes_append, CommandLine.kept_append, CommandLine.scan_append, hscan,
    and_iff_right hkept]
  exact hcount

/-- **Only quotes in the payload keep the line together.** -/
theorem noInjection_iff {env : List UInt8 → Option (List UInt8)}
    {executable payload additional : CStr}
    (h : CommandLine.Unnamed env (commandFront executable ++ appArgument payload ++ .lit "&").bytes
      additional.bytes) :
    NoInjection env executable payload
        (commandFront executable ++ appArgument payload ++ .lit "&" ++ additional) ↔
      BringsQuotes executable payload := by
  have hexpand : CommandLine.expand env
        (commandFront executable ++ appArgument payload ++ .lit "&" ++ additional).bytes =
      (commandFront executable).bytes ++ ((appArgument payload).bytes ++
        '&'.toUInt8 :: CommandLine.expand env additional.bytes) := by
    rw [CStr.bytes_append, CommandLine.expand_append h, CStr.bytes_append, CStr.bytes_append,
      List.append_assoc, List.append_assoc]
    rfl
  have hprefix := CommandLine.prefix_argument_iff (q := .outside) (d := '&'.toUInt8) (by decide)
    (by decide) (appArgument payload).bytes (CommandLine.expand env additional.bytes)
  rw [NoInjection, hexpand, BringsQuotes, ← kept_appArgument_iff, ← hprefix]
  constructor
  · rintro ⟨tail, htail, hfront, hargument⟩
    rw [← List.append_cancel_left htail] at hargument
    exact ⟨hfront, hargument⟩
  · rintro ⟨hfront, hargument⟩
    exact ⟨_, rfl, hfront, hargument⟩

/-- The arrays and the literals of one call. -/
def sampleFrame : StartFrame where
  body := 1
  additionalDataParam := 2
  literals _ := 0
  body_ne _ := by decide
  additionalDataParam_ne _ := by decide

/-- A desktop where the window is always found. -/
def sampleDesktop : Desktop Unit where
  system _ _ := ()
  isWndRunning _ := ((), true)
  sendMessage _ := ()

/-- The plugin's application, on the default port. -/
def sampleWorld : World (List CStr × Unit) where
  apps := [newApp ⟨.lit "YouTube", ⟨0, 0, 0, 0⟩, 0, 1, some (.lit ".youtube.com")⟩ []]
  files _ := none
  host := ([], ())
  port := 56789
  dialDataDir := defaultDialDataDir

/-- A launch with the payload `a&calc`. -/
def sampleLaunch : MgRequest where
  requestMethod := .lit "POST"
  uri := .lit "/apps/YouTube"
  queryString := none
  httpHeaders := [(.lit "Host", .lit "localhost")]
  localAddr := (127, 0, 0, 1)
  remoteAddr := (127, 0, 0, 1)
  body := (CStr.lit "a&calc").bytes

/-- The plugin with its default executable. -/
def sampleHost : Host (List CStr × Unit) :=
  youtubeHost sampleFrame defaultExecutable sampleDesktop (fun _ _ => true) (fun _ => false)

/-- The call that launch makes. -/
def sampleCall : Call where
  owner := .lit "YouTube"
  kind := .start (.lit "a&calc") (additionalDataText 56789 (.lit "YouTube"))
  args := ⟨0, .lit "YouTube", none, 0⟩
  ret := some .running

theorem sampleCall_mem : sampleCall ∈
    (handleAppStart sampleHost sampleWorld sampleLaunch (.lit "YouTube") none).calls := by
  decide +kernel

/-- The command line of that launch. -/
def sampleLine : CStr :=
  commandFront defaultExecutable ++ appArgument (.lit "a&calc") ++ .lit "&" ++
    additionalDataText 56789 (.lit "YouTube")

end DialServer
