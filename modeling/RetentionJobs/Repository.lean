import RetentionJobs.Error
/-! Where statements are submitted to. -/
namespace RetentionJobs

/-- A repository with state `σ`. Submitting answers with the number of statements that were
taken. -/
structure Repository (σ : Type) where
  name : String
  submit : String → σ → Except RepositoryError Nat × σ

namespace Repository

/-- Acknowledges every statement and keeps none. -/
def discarding (σ : Type) : Repository σ where
  name := "none"
  submit _ s := (.ok 1, s)

end Repository
end RetentionJobs
