import ShaderTree.Declaration.Draft
import ShaderTree.Elimination
import ShaderTree.Proofs.Declaration.Drafts
import ShaderTree.Proofs.Declaration.Readability
import ShaderTree.Proofs.Document.Excerpts
import ShaderTree.Proofs.Elimination.Attachment
import ShaderTree.Proofs.Elimination.Binding
import ShaderTree.Proofs.Elimination.Erasure
import ShaderTree.Proofs.Elimination.Fixpoint
import ShaderTree.Proofs.Elimination.Retention
import ShaderTree.Proofs.Elimination.Warnings
import ShaderTree.Proofs.Expr.Readability
import ShaderTree.Proofs.Session.Safety
import ShaderTree.Proofs.Sharing.Distinctness
import ShaderTree.Proofs.Sharing.Locality
import ShaderTree.Proofs.Sharing.Privacy
import ShaderTree.Proofs.Sharing.Stripping
import ShaderTree.Proofs.Sharing.Transparency
import ShaderTree.Proofs.Stmt.Unambiguity
import ShaderTree.Proofs.Store.Refinement
import ShaderTree.Proofs.Tree.Answers
import ShaderTree.Proofs.Tree.Rewriting
import ShaderTree.Sharing
