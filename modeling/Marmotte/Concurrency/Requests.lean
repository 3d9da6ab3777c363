import Marmotte.Custody.Follows
import Marmotte.Custody.Intact
import Marmotte.Sample

/-!
# Requests as tasks

What the scenarios with concurrent uploads share: `PUT` requests behind the
authentication, as programs with an optional response, and a small world to run
them in.
-/

namespace Marmotte

open Effects Custody

/-- An authenticated `PUT` request. -/
structure PutRequest where
  auth : ProjectAuth
  kind : Kind
  project : String
  path : String
  body : Body

namespace PutRequest

/-- The key that the request writes. -/
def key (request : PutRequest) : Key :=
  ⟨request.auth.projectId, request.kind, request.path⟩

/-- The task that serves the request. -/
def program
    (env : Env) (config : Config) (request : PutRequest) :
    App (Option Response) := do
  let response ← Yocto.put env config request.auth request.kind
    request.project request.path request.body
  pure (some response)

/-- A task has answered 201 only after it committed its digest. -/
theorem program_follows
    (setting : Setting) (config : Config) (request : PutRequest)
    (record : Local) (known : request.body.bytes ∈ setting.bodies) :
    (request.program setting.env config).Follows (protocol setting)
      (fun answer last => ∀ response, answer = some response →
        Acknowledged setting.env request.body response last)
      (fun _ _ => True) record := by
  refine Program.Follows.bind
    (put_follows config request.auth request.kind request.project
      request.path request.body record known) ?_
  rintro response last acknowledged _ ⟨⟩
  exact acknowledged

end PutRequest

/-- The task has answered 201. -/
def created : App (Option Response) → Bool
  | .done (some response) => response.status = 201
  | _ => false

theorem created_spec
    {program : App (Option Response)} (answered : created program = true) :
    ∃ response, program = .done (some response) ∧ response.status = 201 := by
  unfold created at answered
  split at answered
  · exact ⟨_, rfl, of_decide_eq_true answered⟩
  · cases answered

/-! ## A world with one project -/

/-- A fresh server in which one project was created. -/
def oneProject : World :=
  ((transact (.projectsCreate "acme" none none)).run
    (exec Sample.env (Sample.config 1024)) (World.initial 1000)).2

theorem oneProject_intact
    (setting : Setting) (sample : setting.env = Sample.env) :
    Intact setting oneProject := by
  have kept := intact_run (Sample.config 1024)
    (keeps_transact setting (.projectsCreate "acme" none none) trivial
      fun _ => rfl) (intact_initial setting 1000)
  rw [sample] at kept
  exact kept

/-- A write key of that project. -/
def acme : ProjectAuth := ⟨1, "acme", 1, .write⟩

/-- A write key of a second project. -/
def beta : ProjectAuth := ⟨2, "beta", 2, .write⟩

end Marmotte
