import RepoAudit.Rdf.Turtle.Writer
import RepoAudit.Report.Document
import RepoAudit.Report.Facts
import RepoAudit.Report.Format
import RepoAudit.Report.Markdown

/-!
# Reports in every format
-/

namespace RepoAudit.Report

/-- The report of a project in a format. -/
def render (p : Project) : Format → String
  | .jsonLd => json p
  | .turtle => Rdf.Turtle.write (graph p)
  | .markdown => Markdown.report p

end RepoAudit.Report
