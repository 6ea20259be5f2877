import Hwwctl.Client.Run
import Hwwctl.Daemon.Proofs.ConnectionProofs
import Hwwctl.Daemon.Proofs.RegistryProofs

/-!
# From the command line to the registry and back

What the client writes is what the daemon reads, cut into reads in any way, and back. The client
prints what the registry answered, exits with a code that tells errors apart, and finds the
connection closed exactly when the answer does not fit a frame, after the command was served.
-/

namespace Hwwctl.Client

open Control Daemon ByteStream

/-! ## The registry's answers -/

/-- The reply is of the command's kind, as the type of its channel says. -/
theorem serve_answers (env : CommandEnv) (cmd : Command) (s : RegistryState) :
    (serve env cmd s).1.Answers cmd := by
  cases cmd with
  | start | stop | shutdown => trivial
  | status id =>
    cases id with
    | none => trivial
    | some id =>
      simp only [serve]
      split <;> trivial
  | logs req =>
    simp only [serve]
    split <;> trivial
  | bridgeStats id =>
    simp only [serve]
    split <;> trivial

/-- What a registry in state `s` answers to its next command. -/
def registryAnswers (env : CommandEnv) (s : RegistryState) : RegistryAnswers :=
  fun cmd => ⟨(serve env cmd s).1, serve_answers env cmd s⟩

/-- The registry after a request. -/
def served (env : CommandEnv) (s : RegistryState) (request : Request) : RegistryState :=
  match toCommand request with
  | some cmd => (serve env cmd s).2
  | none => s

/-- The registry after a connection: it is served the request that could be read, if any. -/
def afterConnection (requests : Json Request) (env : CommandEnv) (s : RegistryState)
    (r : List (Read UInt8)) : RegistryState :=
  match (readFrame requests r).1 with
  | .ok (some request) => served env s request
  | _ => s

variable {requests : Json Request} {responses : Json Response} {info : PongInfo}
  {env : CommandEnv} {s : RegistryState} {cmd : Cmd} {there back : List (Read UInt8)}

/-- What one side writes the other one reads: the daemon reads `there`, the client `back`. -/
structure Exchange (requests : Json Request) (responses : Json Response) (info : PongInfo)
    (env : CommandEnv) (s : RegistryState) (cmd : Cmd) (there back : List (Read UInt8)) :
    Prop where
  arrives : Delivers there (run requests responses (.ok ()) back ⟨[], none⟩ cmd).stream.written
  returns : Delivers back (handleConnection requests responses info (registryAnswers env s) there
    ⟨[], none⟩).stream.written

/-- How a command ends whose request reached the registry. -/
structure Answered (responses : Json Response) (response : Response) (out : ClientEnd)
    (daemon : ConnectionEnd) : Prop where
  fits : Fits responses response → out.code = exitCode response ∧
    out.printed = .response response ∧
    ∃ payload, printJson responses response = .ok payload ∧ daemon.stream.written = frame payload
  closed : ¬ Fits responses response → out.code = 2 ∧ (∃ e, out.printed = .error e) ∧
    daemon.stream.written = []

/-- A client that writes no request leaves nothing behind. -/
structure Silent (out : ClientEnd) (daemon : ConnectionEnd) (s s' : RegistryState) : Prop where
  code : out.code = 2
  printed : ∃ e, out.printed = .error e
  nothing : out.stream.written = [] ∧ daemon.stream.written = []
  registry : s' = s

/-- A connection that is closed before its first byte. -/
theorem readFrame_nil {α : Type} (json : Json α) {r : List (Read UInt8)} (h : Delivers r []) :
    readFrame json r = (.ok none, []) := by
  simp only [readFrame, h.readExact_eof (show ([] : List UInt8).length < 4 by decide)]

/-- What a client writes does not depend on what it reads. -/
theorem run_writes {request : Request} (hcmd : buildRequest cmd = .ok request)
    (r : List (Read UInt8)) (w : Sink UInt8) :
    (run requests responses (.ok ()) r w cmd).stream = (writeFrame requests w request).2 := by
  rw [run, hcmd]
  dsimp only
  split
  · rename_i hwrite
    rw [hwrite]
  · rename_i hwrite
    rw [hwrite]
    split <;> rfl

theorem run_of_reply {request : Request} {response : Response} {r : List (Read UInt8)}
    {w w' : Sink UInt8} (hcmd : buildRequest cmd = .ok request)
    (hwrite : writeFrame requests w request = (.ok (), w'))
    (hread : (readFrame responses r).1 = .ok (some response)) :
    run requests responses (.ok ()) r w cmd = ⟨exitCode response, .response response, w'⟩ := by
  simp only [run, hcmd, hwrite, hread]

theorem run_of_closed {request : Request} {r : List (Read UInt8)} {w w' : Sink UInt8}
    (hcmd : buildRequest cmd = .ok request)
    (hwrite : writeFrame requests w request = (.ok (), w'))
    (hread : (readFrame responses r).1 = .ok none) :
    run requests responses (.ok ()) r w cmd = ⟨2, .error .closed, w'⟩ := by
  simp only [run, hcmd, hwrite, hread]

theorem writeFrame_of_not_fits {α : Type} {json : Json α} {w : Sink UInt8} {m : α}
    (hfits : ¬ Fits json m) : ∃ e, writeFrame json w m = (.error e, w) := by
  cases hm : json.toVec m with
  | error e => exact ⟨.json e, by simp only [writeFrame, hm]⟩
  | ok bytes =>
    have hlen : maxFrameBytes < bytes.length := by
      by_contra hle
      exact hfits ⟨bytes, hm, by omega⟩
    exact ⟨_, writeFrame_of_long hm hlen⟩

/-- A request that fits reaches the registry as it is. -/
theorem Exchange.request_arrives (hrequests : requests.RoundTrips)
    (h : Exchange requests responses info env s cmd there back) {request : Request}
    (hcmd : buildRequest cmd = .ok request) {bytes : List UInt8}
    (hbytes : requests.toVec request = .ok bytes) (hlen : bytes.length ≤ maxFrameBytes) :
    ∃ r, readFrame requests there = (.ok (some request), r) := by
  have harrives := h.arrives
  rw [run_writes hcmd, writeFrame_of_fits rfl hbytes hlen] at harrives
  have hframe : Delivers there (frame bytes ++ []) := by
    rw [List.append_nil]
    exact harrives
  obtain ⟨r, -, hread, -⟩ := readFrame_frame requests hframe hlen
  exact ⟨r, hread request (hrequests request bytes hbytes)⟩

theorem Exchange.answered (hrequests : requests.RoundTrips) (hresponses : responses.RoundTrips)
    (h : Exchange requests responses info env s cmd there back) {request : Request}
    (hcmd : buildRequest cmd = .ok request) (hfits : Fits requests request) :
    Answered responses (dispatch info (registryAnswers env s) request)
      (run requests responses (.ok ()) back ⟨[], none⟩ cmd)
      (handleConnection requests responses info (registryAnswers env s) there ⟨[], none⟩) := by
  obtain ⟨bytes, hbytes, hlen⟩ := hfits
  obtain ⟨r, hread⟩ := h.request_arrives hrequests hcmd hbytes hlen
  have hwrite := writeFrame_of_fits (w := ⟨[], none⟩) rfl hbytes hlen
  refine ⟨?_, ?_⟩
  · rintro ⟨reply, hreply, hreplyLen⟩
    have hdaemon := handleConnection_of_fits (w := ⟨[], none⟩) hread rfl hreply hreplyLen
    have hreturns := h.returns
    rw [hdaemon] at hreturns
    have hframe : Delivers back (frame reply ++ []) := by
      rw [List.append_nil]
      exact hreturns
    obtain ⟨r', -, hback, -⟩ := readFrame_frame responses hframe hreplyLen
    have hresponse := congrArg (·.1) (hback _ (hresponses _ reply hreply))
    rw [run_of_reply hcmd hwrite hresponse, hdaemon]
    exact ⟨rfl, rfl, reply, hreply, rfl⟩
  · intro hno
    have hdaemon : (handleConnection requests responses info (registryAnswers env s) there
        ⟨[], none⟩).stream = ⟨[], none⟩ := handleConnection_of_not_fits hread hno
    have hreturns := h.returns
    rw [hdaemon] at hreturns
    have hclosed := congrArg (·.1) (readFrame_nil responses hreturns)
    rw [run_of_closed hcmd hwrite hclosed, hdaemon]
    exact ⟨rfl, ⟨_, rfl⟩, rfl⟩

/-- A command without a request, or whose request does not fit a frame. -/
theorem Exchange.silent (h : Exchange requests responses info env s cmd there back)
    (hno : ∀ request, buildRequest cmd = .ok request → ¬ Fits requests request) :
    Silent (run requests responses (.ok ()) back ⟨[], none⟩ cmd)
      (handleConnection requests responses info (registryAnswers env s) there ⟨[], none⟩) s
      (afterConnection requests env s there) := by
  obtain ⟨e, hrun⟩ : ∃ e, run requests responses (.ok ()) back ⟨[], none⟩ cmd =
      ⟨2, .error e, ⟨[], none⟩⟩ := by
    cases hcmd : buildRequest cmd with
    | error e => exact ⟨.badArguments e, by simp only [run, hcmd]⟩
    | ok request =>
      obtain ⟨e, hwrite⟩ := writeFrame_of_not_fits (w := ⟨[], none⟩) (hno request hcmd)
      exact ⟨.writeRequest e, by simp only [run, hcmd, hwrite]⟩
  have harrives := h.arrives
  rw [hrun] at harrives
  have hread := readFrame_nil requests harrives
  refine ⟨?_, ?_, ⟨?_, ?_⟩, ?_⟩
  · rw [hrun]
  · exact ⟨e, by rw [hrun]⟩
  · rw [hrun]
  · simp only [handleConnection, hread]
  · simp only [afterConnection, hread]

/-- However the bytes are cut on their way: a command whose request fits a frame is served once; the
client prints the registry's very answer, as JSON byte for byte the payload the daemon sent, and
exits with 1 for an error and 0 otherwise, unless the answer does not fit a frame: then it exits with
2 although the command was served. Any other command exits with 2, and neither side writes anything
nor is the registry asked. -/
theorem run_exchange (hrequests : requests.RoundTrips) (hresponses : responses.RoundTrips)
    (h : Exchange requests responses info env s cmd there back) :
    (∀ request, buildRequest cmd = .ok request → Fits requests request →
      Answered responses (dispatch info (registryAnswers env s) request)
        (run requests responses (.ok ()) back ⟨[], none⟩ cmd)
        (handleConnection requests responses info (registryAnswers env s) there ⟨[], none⟩) ∧
      afterConnection requests env s there = served env s request) ∧
    ((∀ request, buildRequest cmd = .ok request → ¬ Fits requests request) →
      Silent (run requests responses (.ok ()) back ⟨[], none⟩ cmd)
        (handleConnection requests responses info (registryAnswers env s) there ⟨[], none⟩) s
        (afterConnection requests env s there)) := by
  refine ⟨?_, h.silent⟩
  intro request hcmd hfits
  refine ⟨h.answered hrequests hresponses hcmd hfits, ?_⟩
  obtain ⟨bytes, hbytes, hlen⟩ := hfits
  obtain ⟨r, hread⟩ := h.request_arrives hrequests hcmd hbytes hlen
  simp only [afterConnection, hread]

/-- A `Shutdown` that arrives in two reads. -/
def shutdownCut : List (Chunk UInt8) :=
  [⟨(frame (bareJson "shutdown")).take 6, by decide⟩,
    ⟨(frame (bareJson "shutdown")).drop 6, by decide⟩]

theorem run_exchange_shutdown :
    (run bareRequests bareResponses (.ok ())
      [.data ⟨frame (bareJson "shutting_down"), frame_ne_nil _⟩] ⟨[], none⟩ .shutdown).code = 0 ∧
    afterConnection bareRequests readyEnv .init (shutdownCut.map .data) =
      served readyEnv .init .shutdown := by
  have hexchange : Exchange bareRequests bareResponses ⟨"0.1.4", 1, 4711⟩ readyEnv .init .shutdown
      (shutdownCut.map .data) [.data ⟨frame (bareJson "shutting_down"), frame_ne_nil _⟩] :=
    ⟨⟨shutdownCut, rfl, by decide⟩, ⟨[⟨_, frame_ne_nil _⟩], rfl, by decide⟩⟩
  have hrun := (run_exchange bareRequests_roundTrips bareResponses_roundTrips hexchange).1 .shutdown
    rfl ⟨_, rfl, by decide⟩
  exact ⟨(hrun.1.fits ⟨_, rfl, by decide⟩).1, hrun.2⟩

end Hwwctl.Client
