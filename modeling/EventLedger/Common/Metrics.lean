import EventLedger.Base.Text

-- The counters of domain events of a process.
structure Metrics where
  domainCounts : Text → ℕ

namespace Metrics

def empty : Metrics where
  domainCounts _ := 0

def recordDomainEvent (m : Metrics) (name : String) : Metrics where
  domainCounts n := if n = name.toList then m.domainCounts n + 1 else m.domainCounts n

def count (m : Metrics) (name : String) : ℕ :=
  m.domainCounts name.toList

@[simp]
theorem count_empty (name : String) : empty.count name = 0 :=
  rfl

@[simp]
theorem count_recordDomainEvent (m : Metrics) (name name' : String) :
    (m.recordDomainEvent name').count name = m.count name + if name = name' then 1 else 0 := by
  simp only [count, recordDomainEvent, String.toList_inj]
  split <;> rfl

end Metrics
