import CallPatch.Deployment.Coordinator
/-!
# Batches — reports while the coordinator is busy

A batch of reports in which the coordinator is stopped on its way: it takes on
the first site that is new to the installed index, alone, and is held up
before it looks at the host. The reports behind it stay staged. Then it goes
on, finishes the first site, and takes on the rest as one transfer.
-/

namespace CallPatch.Deployment

/-- What is seen just before the coordinator goes on. -/
structure Held where
  staging : IndexStats
  installed : EntryIndex
  deriving DecidableEq, Repr

/-- Whether a report of the site hands the coordinator something new: it is a call of `put` from
code that can be patched, and neither staged nor installed yet. -/
def isNew (d : Deployment) (n : Nat) (site : CallSite) : Bool :=
  match d.agent? n with
  | none => false
  | some a =>
    site.defect?.isNone && !site.caller.native
      && !a.staging.contains site.key && !a.installed.contains site.key

/-- Stages sites in order, the coordinator staying where it is. -/
def stageAll (d : Deployment) (n : Nat) (sites : List CallSite) :
    Deployment × List (Except AgentError Bool) :=
  sites.foldl
    (fun (d, results) site =>
      let (d, result) := d.stage n site
      (d, results ++ [result]))
    (d, [])

/-- What is seen of an agent whose coordinator is held up. -/
def held? (d : Deployment) (n : Nat) : Option Held :=
  (d.agent? n).map fun a => { staging := a.staging.stats, installed := a.installed }

/-- Reports a batch, with the result of every report, and with what was seen while the coordinator
was held up, if it was. -/
def reportBatch (d : Deployment) (n : Nat) :
    List CallSite → Deployment × List (Except AgentError Bool) × Option Held
  | [] => (d, [], none)
  | site :: rest =>
    if d.isNew n site then
      let (d, result) := d.stage n site
      let (d, difference) := d.takeOn n
      let (d, results) := d.stageAll n rest
      ((d.requestAll n difference).coordinate n, result :: results, d.held? n)
    else
      let (d, result) := d.report n site
      let (d, results, held) := d.reportBatch n rest
      (d, result :: results, held)

end CallPatch.Deployment
